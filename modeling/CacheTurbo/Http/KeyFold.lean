/-
# What the key says of the cookies

The key that `KeyCookies.buildKey` gives is the base key and one frame for each cookie that was
found.  A frame begins with a byte and a length whose upper bytes are zero, so no base without a NUL
reaches into it (`keyFoldAll_inj`), and the frames say which cookies there are and what their values
are, or that these are too long (`frames_inj`).

Every cookie of the location that the request carries has its frame in every run, exactly if it
carries none or the index can be had without an allocation (`key_cookies_folded_iff`).
-/

import CacheTurbo.Http.KeyCookies

namespace CacheTurbo
namespace Http
namespace KeyCookies

open Bytes

/-! ## Frames -/

/-- What a frame says of a cookie: its name, and its value unless that is too long. -/
def mark (slot : Bytes × Bytes) : Bytes × Option Bytes :=
  (slot.1, if slot.2.length > keyCookieMax then none else some slot.2)

theorem putU32_inj {a b : ℕ} (ha : a < 2 ^ 32) (hb : b < 2 ^ 32) (h : putU32 a = putU32 b) :
    a = b := by
  have hbytes := congrArg (List.map UInt8.toNat) h
  simp only [putU32, List.map_cons, List.map_nil, Nat.toUInt8_eq, UInt8.toNat_ofNat',
    List.cons.injEq, and_true] at hbytes
  omega

/-- The length field of a value. -/
def valueField (v : Bytes) : ℕ := if v.length > keyCookieMax then keyCookieOversize else v.length

theorem valueField_lt (v : Bytes) : valueField v < 2 ^ 32 := by
  rw [valueField]
  split
  · decide
  · rename_i h
    rw [keyCookieMax] at h
    omega

/-- The bytes of a value in its frame. -/
def valueBytes (v : Bytes) : Bytes := if v.length > keyCookieMax then [] else v

theorem keyFoldAppend_eq (n v : Bytes) :
    keyFoldAppend (n, v) =
      [31] ++ (putU32 n.length ++ (putU32 (valueField v) ++ (n ++ valueBytes v))) := by
  rw [keyFoldAppend, valueField, valueBytes]
  dsimp only
  rw [List.append_assoc, List.append_assoc]
  rfl

/-- The length field says whether a value is too long. -/
theorem value_of_field {v v' : Bytes} (h : valueField v = valueField v') :
    (v.length > keyCookieMax ↔ v'.length > keyCookieMax) ∧
      (valueBytes v).length = (valueBytes v').length := by
  rw [valueField, valueField] at h
  rw [valueBytes, valueBytes]
  rw [keyCookieMax, keyCookieOversize] at *
  split at h
  · rename_i hlong
    split at h
    · rename_i hlong'
      rw [if_pos hlong, if_pos hlong']
      exact ⟨iff_of_true hlong hlong', rfl⟩
    · omega
  · rename_i hshort
    split at h
    · omega
    · rename_i hshort'
      rw [if_neg hshort, if_neg hshort']
      exact ⟨iff_of_false hshort hshort', h⟩

/-- A frame can be read off the front. -/
theorem frame_inj {n v n' v' rest rest' : Bytes} (hn : n.length < 2 ^ 32) (hn' : n'.length < 2 ^ 32)
    (h : keyFoldAppend (n, v) ++ rest = keyFoldAppend (n', v') ++ rest') :
    mark (n, v) = mark (n', v') ∧ rest = rest' := by
  rw [keyFoldAppend_eq, keyFoldAppend_eq] at h
  simp only [List.append_assoc] at h
  obtain ⟨-, h⟩ := List.append_inj h rfl
  obtain ⟨hlen, h⟩ := List.append_inj h rfl
  obtain ⟨hfield, h⟩ := List.append_inj h rfl
  obtain ⟨hname, h⟩ := List.append_inj h (putU32_inj hn hn' hlen)
  obtain ⟨hlong, hbytes⟩ := value_of_field (putU32_inj (valueField_lt v) (valueField_lt v') hfield)
  obtain ⟨hvalue, hrest⟩ := List.append_inj h hbytes
  refine ⟨?_, hrest⟩
  rw [mark, mark]
  dsimp only
  rw [hname]
  rw [valueBytes, valueBytes] at hvalue
  by_cases hv : v.length > keyCookieMax
  · rw [if_pos hv, if_pos (hlong.1 hv)]
  · rw [if_neg hv, if_neg (hlong.not.1 hv)] at hvalue ⊢
    rw [hvalue]

/-- The frames of cookies. -/
def frames (slots : List (Bytes × Bytes)) : Bytes := slots.flatMap keyFoldAppend

/-- Names as a location can have them. -/
def NamesOk (slots : List (Bytes × Bytes)) : Prop := ∀ s ∈ slots, s.1 ≠ [] ∧ s.1.length < 256

theorem NamesOk.tail {s : Bytes × Bytes} {slots : List (Bytes × Bytes)} (h : NamesOk (s :: slots)) :
    NamesOk slots := fun t ht => h t (List.mem_cons_of_mem s ht)

theorem frame_ne_nil (s : Bytes × Bytes) (rest : Bytes) : keyFoldAppend s ++ rest ≠ [] :=
  List.cons_ne_nil _ _

/-- **The frames say what the cookies are.** -/
theorem frames_inj {slots slots' : List (Bytes × Bytes)} (h : NamesOk slots) (h' : NamesOk slots')
    (heq : frames slots = frames slots') : slots.map mark = slots'.map mark := by
  induction slots generalizing slots' with
  | nil =>
    cases slots' with
    | nil => rfl
    | cons s slots' => exact absurd heq.symm (frame_ne_nil s _)
  | cons s slots ih =>
    cases slots' with
    | nil => exact absurd heq (frame_ne_nil s _)
    | cons t slots' =>
      have hs := (h s List.mem_cons_self).2
      have ht := (h' t List.mem_cons_self).2
      obtain ⟨hmark, hrest⟩ := frame_inj (by omega) (by omega) heq
      rw [List.map_cons, List.map_cons, hmark, ih h.tail h'.tail hrest]

/-- A frame begins with its tag and the length of a name, in one byte and three zeros. -/
theorem frame_head {s : Bytes × Bytes} (h : s.1 ≠ [] ∧ s.1.length < 256) :
    ∃ n rest, n ≠ 0 ∧ keyFoldAppend s = 31 :: n :: 0 :: rest := by
  obtain ⟨hne, hlt⟩ := h
  have hpos := List.length_pos_iff.2 hne
  have hfield : ∃ n rest, n ≠ 0 ∧ putU32 s.1.length = n :: 0 :: rest := by
    refine ⟨(s.1.length % 256).toUInt8, [0, 0], ?_, ?_⟩
    · intro hzero
      have hnat := congrArg UInt8.toNat hzero
      simp only [Nat.toUInt8_eq, UInt8.toNat_ofNat', UInt8.toNat_zero] at hnat
      omega
    · have hhigh : ∀ k, 8 ≤ k → s.1.length / 2 ^ k = 0 := fun k hk =>
        Nat.div_eq_of_lt (lt_of_lt_of_le hlt (Nat.pow_le_pow_right (n := 2) (by decide) hk))
      rw [putU32, hhigh 8 (by decide), hhigh 16 (by decide), hhigh 24 (by decide)]
      rfl
  obtain ⟨n, rest, hn, hput⟩ := hfield
  refine ⟨n, rest ++ (putU32 (valueField s.2) ++ (s.1 ++ valueBytes s.2)), hn, ?_⟩
  rw [← Prod.mk.eta (p := s), keyFoldAppend_eq, hput]
  rfl

/-- No text without a NUL is between a base and its frames. -/
theorem frames_ne_append {slots slots' : List (Bytes × Bytes)} (h : NamesOk slots)
    (h' : NamesOk slots') {t : Bytes} (ht : t ≠ []) (hnul : 0 ∉ t) :
    frames slots ≠ t ++ frames slots' := by
  intro heq
  cases slots with
  | nil => exact ht (List.append_eq_nil_iff.1 heq.symm).1
  | cons s slots =>
    obtain ⟨n, rest, hn, hframe⟩ := frame_head (h s List.mem_cons_self)
    rw [frames, List.flatMap_cons, hframe, List.cons_append, List.cons_append,
      List.cons_append] at heq
    have hnext : ∀ x rest', frames slots' = x :: rest' → x = 31 ∧ rest'.head? ≠ some 0 := by
      intro x rest' hframes
      cases slots' with
      | nil => cases hframes
      | cons s' slots' =>
        obtain ⟨n', more, hn', hframe'⟩ := frame_head (h' s' List.mem_cons_self)
        rw [frames, List.flatMap_cons, hframe'] at hframes
        obtain ⟨hx, hrest⟩ := List.cons.inj hframes
        refine ⟨hx.symm, ?_⟩
        rw [← hrest]
        exact fun hzero => hn' (Option.some.inj hzero)
    -- the text ends within the tag and the first byte of the length
    match t with
    | [] => exact ht rfl
    | [_] => exact (hnext _ _ (List.cons.inj heq).2.symm).2 rfl
    | [_, _] =>
      exact absurd (hnext _ _ (List.cons.inj (List.cons.inj heq).2).2.symm).1 (by decide)
    | c :: d :: e :: t =>
      have hzero : 0 = e := (List.cons.inj (List.cons.inj (List.cons.inj heq).2).2).1
      exact hnul (by rw [← hzero]; simp)

/-- **A key without a NUL in its base says what the base and the cookies are.** -/
theorem keyFoldAll_inj {base base' : Bytes} {slots slots' : List (Bytes × Bytes)}
    (h : NamesOk slots) (h' : NamesOk slots') (hbase : 0 ∉ base) (hbase' : 0 ∉ base')
    (heq : keyFoldAll base slots = keyFoldAll base' slots') :
    base = base' ∧ slots.map mark = slots'.map mark := by
  rcases append_cut heq with ⟨hb, hf⟩ | ⟨t, ht, hb, hf⟩ | ⟨t, ht, hb, hf⟩
  · exact ⟨hb, frames_inj h h' hf⟩
  · exact absurd hf (frames_ne_append h h' ht fun hmem =>
      hbase' (hb ▸ List.mem_append_right _ hmem))
  · exact absurd hf (frames_ne_append h' h ht fun hmem => hbase (hb ▸ List.mem_append_right _ hmem))

/-! ## The fold of the slots -/

/-- The cookie of a slot. -/
def Slot.cookie (s : Slot) : Bytes × Bytes := (s.name, s.val)

/-- What is written for a slot is its frame, and as long as was sized. -/
theorem foldAppend_sized (p : Bytes) (s : Slot) :
    foldAppend p (keyFoldSize s).2 = p ++ keyFoldAppend s.cookie ∧
      (keyFoldAppend s.cookie).length = (keyFoldSize s).1 := by
  have hfour : ∀ v, (putU32 v).length = 4 := fun _ => rfl
  have hlen : (keyFoldAppend s.cookie).length =
      1 + 4 + 4 + s.name.length + (valueBytes s.val).length := by
    rw [Slot.cookie, keyFoldAppend_eq]
    simp only [List.length_append, List.length_singleton, hfour]
    omega
  rw [hlen, Slot.cookie, keyFoldAppend_eq, foldAppend, keyFoldSize, valueField, valueBytes]
  dsimp only
  split
  · dsimp only
    rw [if_neg (not_not.2 rfl)]
    refine ⟨?_, rfl⟩
    simp only [List.append_assoc, List.append_nil]
  · refine ⟨?_, rfl⟩
    dsimp only
    split
    · rw [List.take_length]
      simp only [List.append_assoc]
    · rename_i hempty
      rw [List.length_eq_zero_iff.1 (not_not.1 hempty)]
      simp only [List.append_assoc, List.append_nil]

/-- **The buffer is as long as what is written into it**, which is one frame for each slot. -/
theorem foldAll_eq {key key' : CacheKey} {slots : List Slot} {pool pool' : Pool}
    (h : foldAll key slots pool = (some key', pool')) :
    key'.data = keyFoldAll key.data (slots.map Slot.cookie) ∧
      (key.len = key.data.length → key'.len = key'.data.length) := by
  have hwrite : ∀ (slots : List Slot) (p : Bytes),
      ((slots.map keyFoldSize).map Prod.snd).foldl foldAppend p =
        keyFoldAll p (slots.map Slot.cookie) ∧
      (keyFoldAll p (slots.map Slot.cookie)).length =
        p.length + ((slots.map keyFoldSize).map Prod.fst).sum := by
    intro slots
    induction slots with
    | nil => exact fun p => ⟨(List.append_nil p).symm, by rw [keyFoldAll]; simp⟩
    | cons s slots ih =>
      intro p
      obtain ⟨happend, hlen⟩ := foldAppend_sized p s
      obtain ⟨hdata, hrest⟩ := ih (p ++ keyFoldAppend s.cookie)
      have hcons : keyFoldAll p ((s :: slots).map Slot.cookie) =
          keyFoldAll (p ++ keyFoldAppend s.cookie) (slots.map Slot.cookie) := by
        rw [keyFoldAll, keyFoldAll, List.map_cons, List.flatMap_cons, List.append_assoc]
      refine ⟨?_, ?_⟩
      · rw [hcons, ← hdata, List.map_cons, List.map_cons, List.foldl_cons, happend]
      · rw [hcons, hrest, List.length_append, hlen, List.map_cons, List.map_cons, List.sum_cons,
          Nat.add_assoc]
  rw [foldAll] at h
  split at h
  · rename_i hnone
    cases h
    rw [List.length_eq_zero_iff.1 hnone]
    exact ⟨(List.append_nil _).symm, id⟩
  · dsimp only at h
    split at h
    · cases h
    · cases h
      obtain ⟨hdata, hlen⟩ := hwrite slots key.data
      refine ⟨hdata, fun hkey => ?_⟩
      dsimp only
      rw [hdata, hlen, hkey]

/-! ## The queue -/

/-- The cookies of a list of names that the request carries, with their first values. -/
def carried (r : Request) (names : List Bytes) : List (Bytes × Bytes) :=
  names.filterMap fun name => (firstValue r name).map fun val => (name, val)

theorem keyCookieSlots_eq (conf : KeyConf) (r : Request) :
    keyCookieSlots conf r = carried r (conf.autoKeyCookies ++ conf.keyCookies) := by
  rw [keyCookieSlots, carried]
  congr 1
  funext name
  rw [cookieIndexLookup_eq]

/-- A name that is not carried is no slot. -/
theorem carried_cons (r : Request) (name : Bytes) (names : List Bytes) :
    carried r (name :: names) =
      (match firstValue r name with
        | none => []
        | some val => [(name, val)]) ++ carried r names := by
  rw [carried, List.filterMap_cons]
  cases firstValue r name <;> rfl

/-- **Every carried cookie is queued**, where none is or the index can be had. -/
theorem queueAll_exact {r : Request} {names : List Bytes} {slots slots' : List Slot} {w w' : World}
    (hok : w.Ok r) (h : (∀ name ∈ names, firstValue r name = none) ∨ Indexed r w.ctx)
    (hqueue : queueAll r names slots w = (some slots', w')) :
    slots'.map Slot.cookie = slots.map Slot.cookie ++ carried r names ∧ w'.Ok r ∧
      (Indexed r w.ctx → Indexed r w'.ctx) := by
  induction names generalizing slots w with
  | nil =>
    cases hqueue
    exact ⟨(List.append_nil _).symm, hok, id⟩
  | cons name names ih =>
    have hfound := indexLookup_exact hok (h.imp (fun hnone => hnone name List.mem_cons_self) id)
    have hworld := indexLookup_world (r := r) name (w := w)
    have hok' : (indexLookup r name w).2.Ok r := hworld ▸ (ctxIndex_ok hok).1
    have hindexed : Indexed r w.ctx → Indexed r (indexLookup r name w).2.ctx := fun hw =>
      hworld ▸ (ctxIndex_indexed hw).2
    have hrest : (∀ n ∈ names, firstValue r n = none) ∨ Indexed r (indexLookup r name w).2.ctx :=
      h.imp (fun hnone n hn => hnone n (List.mem_cons_of_mem name hn)) hindexed
    rw [queueAll] at hqueue
    rw [carried_cons, ← hfound]
    rcases hlook : indexLookup r name w with ⟨_ | val, mid⟩
    · rw [hlook] at hqueue hok' hindexed hrest
      obtain ⟨hslots, hok'', hkeep⟩ := ih hok' hrest hqueue
      exact ⟨hslots, hok'', fun hw => hkeep (hindexed hw)⟩
    · rw [hlook] at hqueue hok' hindexed hrest
      dsimp only at hqueue
      rw [keyCookieQueue] at hqueue
      rcases hpool : palloc mid.pool with ⟨_ | _, pool⟩
      · rw [hpool] at hqueue
        cases hqueue
      · rw [hpool] at hqueue
        obtain ⟨hslots, hok'', hkeep⟩ := ih (w := ⟨mid.ctx, pool⟩) hok' hrest hqueue
        refine ⟨?_, hok'', fun hw => hkeep (hindexed hw)⟩
        rw [hslots, List.map_append, List.append_assoc]
        rfl

/-! ## The key -/

/-- A run that gives a key queues the cookies and folds the slots. -/
theorem buildKey_some {conf : KeyConf} {r : Request} {w : World} {key : CacheKey}
    (h : buildKey conf r w = some key) :
    ∃ pool preset slots w₁ w₂ pool',
      queueAll r conf.autoKeyCookies [] ⟨w.ctx, pool⟩ = (some preset, w₁) ∧
      queueAll r conf.keyCookies preset w₁ = (some slots, w₂) ∧
      foldAll ⟨(keyExpression conf r).length, keyExpression conf r⟩ slots w₂.pool =
        (some key, pool') := by
  rw [buildKey] at h
  split at h
  · cases h
  · dsimp only at h
    split at h
    · cases h
    · rename_i pool _
      rcases hpreset : queueAll r conf.autoKeyCookies [] ⟨w.ctx, pool⟩ with ⟨_ | preset, w₁⟩
      · rw [hpreset] at h
        cases h
      · rw [hpreset] at h
        dsimp only at h
        rcases hown : queueAll r conf.keyCookies preset w₁ with ⟨_ | slots, w₂⟩
        · rw [hown] at h
          cases h
        · rw [hown] at h
          dsimp only at h
          rcases hfold : foldAll ⟨(keyExpression conf r).length, keyExpression conf r⟩ slots
            w₂.pool with ⟨_ | key', pool'⟩
          · rw [hfold] at h
            cases h
          · rw [hfold] at h
            dsimp only at h
            split at h
            · cases h
              exact ⟨pool, preset, slots, w₁, w₂, pool', hpreset, hown, hfold⟩
            · cases h

theorem buildKey_len {conf : KeyConf} {r : Request} {w : World} {key : CacheKey}
    (h : buildKey conf r w = some key) : key.len = key.data.length := by
  obtain ⟨pool, preset, slots, w₁, w₂, pool', -, -, hfold⟩ := buildKey_some h
  exact (foldAll_eq hfold).2 rfl

/-- The key has every cookie: the request carries none of the location's, or the index can be had
without an allocation. -/
def Foldable (conf : KeyConf) (r : Request) (ctx : Option Ctx) : Prop :=
  (∀ name ∈ conf.autoKeyCookies ++ conf.keyCookies, firstValue r name = none) ∨ Indexed r ctx

/-- **A run folds every carried cookie.** -/
theorem buildKey_exact {conf : KeyConf} {r : Request} {w : World} {key : CacheKey} (hok : w.Ok r)
    (hfold : Foldable conf r w.ctx) (h : buildKey conf r w = some key) :
    key.data = Http.buildKey conf r := by
  obtain ⟨pool, preset, slots, w₁, w₂, pool', hpreset, hown, hkey⟩ := buildKey_some h
  obtain ⟨hslots₁, hok₁, hkeep₁⟩ := queueAll_exact (w := ⟨w.ctx, pool⟩) hok
    (hfold.imp (fun hnone name hname => hnone name (List.mem_append_left _ hname)) id) hpreset
  obtain ⟨hslots₂, -, -⟩ := queueAll_exact hok₁
    (hfold.imp (fun hnone name hname => hnone name (List.mem_append_right _ hname)) hkeep₁) hown
  rw [(foldAll_eq hkey).1, Http.buildKey, hslots₂, hslots₁, keyCookieSlots_eq, carried, carried,
    carried, List.filterMap_append]
  rfl

/-- Answers that deny every lookup its index. -/
def starving (ctx : Option Ctx) : List Bytes → Pool → Pool
  | [], pool => pool
  | _ :: names, pool =>
      if ctx = none then starving ctx names pool else false :: starving ctx names pool

theorem queueAll_starved {r : Request} {ctx : Option Ctx} (h : ¬ Indexed r ctx) (names : List Bytes)
    (slots : List Slot) (pool : Pool) :
    queueAll r names slots ⟨ctx, starving ctx names pool⟩ = (some slots, ⟨ctx, pool⟩) := by
  induction names with
  | nil => rfl
  | cons name names ih =>
    rw [queueAll, starving, indexLookup_starved h]
    exact ih

/-- **Where the index cannot be had without an allocation, a run may fold no cookie at all.** -/
theorem buildKey_starved {conf : KeyConf} {r : Request} {ctx : Option Ctx} (h : ¬ Indexed r ctx)
    (hkeyed : conf.autoKeyCookies.length ≠ 0 ∨ conf.keyCookies.length ≠ 0) :
    buildKey conf r ⟨ctx, true :: true ::
        starving ctx conf.autoKeyCookies (starving ctx conf.keyCookies [])⟩ =
      some ⟨(keyExpression conf r).length, keyExpression conf r⟩ := by
  rw [buildKey]
  dsimp only [palloc]
  rw [if_pos hkeyed]
  dsimp only
  rw [queueAll_starved h]
  dsimp only
  rw [queueAll_starved h]
  rfl

/-- What a request says of the key cookies of a location: each one that it carries, with its first
value over all lines, or that this is too long. -/
def entries (conf : KeyConf) (r : Request) : List (Bytes × Option Bytes) :=
  (carried r (conf.autoKeyCookies ++ conf.keyCookies)).map mark

/-- A location's names of key cookies are not empty and not long. -/
def KeyNames (conf : KeyConf) : Prop :=
  ∀ name ∈ conf.autoKeyCookies ++ conf.keyCookies, name ≠ [] ∧ name.length < 256

theorem KeyNames.carried {conf : KeyConf} (h : KeyNames conf) (r : Request) :
    NamesOk (carried r (conf.autoKeyCookies ++ conf.keyCookies)) := by
  intro s hs
  obtain ⟨name, hname, hval⟩ := List.mem_filterMap.1 hs
  obtain ⟨v, -, rfl⟩ := Option.map_eq_some_iff.1 hval
  exact h name hname

/-- **The fold of the key cookies.**  The buffer of every key is as long as what is written into it.
Keys with every carried cookie say what the base is and which cookies there are, with their first
values.  And a request has such keys in all runs, whatever allocations fail, exactly if it carries
none of the location's cookies or has an installed context whose index is built or needs no more
than its own room. -/
theorem key_cookies_folded_iff (conf : KeyConf) :
    (∀ r w key, buildKey conf r w = some key → key.len = key.data.length) ∧
    (KeyNames conf → ∀ r r' w w' key key', w.Ok r → w'.Ok r' → Foldable conf r w.ctx →
      Foldable conf r' w'.ctx → 0 ∉ keyExpression conf r → 0 ∉ keyExpression conf r' →
      buildKey conf r w = some key → buildKey conf r' w' = some key' → key.data = key'.data →
        keyExpression conf r = keyExpression conf r' ∧ entries conf r = entries conf r') ∧
    ∀ (r : Request) ctx, (∀ c, ctx = some c → c.Ok r) →
      ((∀ pool key, buildKey conf r ⟨ctx, pool⟩ = some key → key.data = Http.buildKey conf r) ↔
        Foldable conf r ctx) := by
  refine ⟨fun r w key => buildKey_len,
    fun hnames r r' w w' key key' hok hok' hfold hfold' hnul hnul' hkey hkey' heq => ?_,
    fun r ctx hok => ⟨fun hall => ?_, fun hfold pool key hkey => ?_⟩⟩
  · rw [buildKey_exact hok hfold hkey, buildKey_exact hok' hfold' hkey', Http.buildKey,
      Http.buildKey, keyCookieSlots_eq, keyCookieSlots_eq] at heq
    exact keyFoldAll_inj (hnames.carried r) (hnames.carried r') hnul hnul' heq
  · by_contra hnot
    obtain ⟨hsome, hindex⟩ := not_or.1 hnot
    have hcarries : carried r (conf.autoKeyCookies ++ conf.keyCookies) ≠ [] := by
      intro hnil
      refine hsome fun name hname => ?_
      have hnone := List.filterMap_eq_nil_iff.1 hnil name hname
      rwa [Option.map_eq_none_iff] at hnone
    have hkeyed : conf.autoKeyCookies.length ≠ 0 ∨ conf.keyCookies.length ≠ 0 := by
      by_contra hnone
      obtain ⟨hauto, hown⟩ := not_or.1 hnone
      rw [List.length_eq_zero_iff.1 (not_not.1 hauto), List.length_eq_zero_iff.1 (not_not.1 hown)]
        at hcarries
      exact hcarries rfl
    have hbare := hall _ _ (buildKey_starved hindex hkeyed)
    rw [Http.buildKey, keyFoldAll, keyCookieSlots_eq] at hbare
    obtain ⟨s, rest, hs⟩ := List.exists_cons_of_ne_nil hcarries
    rw [hs, List.flatMap_cons] at hbare
    exact frame_ne_nil s _ (List.self_eq_append_right.1 hbare)
  · exact buildKey_exact (w := ⟨ctx, pool⟩) hok hfold hkey

/-- An installed context without an index. -/
def freshCtx : Option Ctx := some ⟨none⟩

theorem freshCtx_ok (r : Request) : ∀ c, freshCtx = some c → c.Ok r := by
  intro c hc idx hidx
  cases hc
  cases hidx

/-- `c=1`, alone and in a second line. -/
def oneLine : Request := cookieRequest [[99, 61, 49]]

def secondLine : Request := cookieRequest [[120], [99, 61, 49]]

theorem key_cookies_folded_one :
    (∀ pool key, buildKey cookieKeyConf oneLine ⟨freshCtx, pool⟩ = some key →
      key.data = Http.buildKey cookieKeyConf oneLine) ∧
    (buildKey cookieKeyConf secondLine ⟨freshCtx, [true]⟩).map (fun key => key.data.length) =
      some 12 ∧
    entries cookieKeyConf oneLine = entries cookieKeyConf secondLine := by
  have hnames : KeyNames cookieKeyConf := by
    unfold KeyNames
    decide
  have hone : Foldable cookieKeyConf oneLine freshCtx := Or.inr ⟨_, rfl, Or.inr (by decide)⟩
  have hsecond : Foldable cookieKeyConf secondLine freshCtx := Or.inr ⟨_, rfl, Or.inr (by decide)⟩
  have hrun : buildKey cookieKeyConf oneLine ⟨freshCtx, []⟩ =
      some ⟨12, [47, 31, 1, 0, 0, 0, 1, 0, 0, 0, 99, 49]⟩ := by decide +kernel
  have hrun' : buildKey cookieKeyConf secondLine ⟨freshCtx, [true]⟩ =
      some ⟨12, [47, 31, 1, 0, 0, 0, 1, 0, 0, 0, 99, 49]⟩ := by decide +kernel
  obtain ⟨hlen, hinj, hiff⟩ := key_cookies_folded_iff cookieKeyConf
  refine ⟨(hiff oneLine freshCtx (freshCtx_ok oneLine)).2 hone, ?_, ?_⟩
  · rw [hrun', Option.map_some, ← hlen _ _ _ hrun']
  · exact (hinj hnames oneLine secondLine ⟨freshCtx, []⟩ ⟨freshCtx, [true]⟩ _ _
      (freshCtx_ok oneLine) (freshCtx_ok secondLine) hone hsecond (by decide) (by decide) hrun
      hrun' rfl).2

/-- Cookies of 17 names, `a=1` to `q=1`. -/
def manyCookies : Request := cookieRequest ((List.range 17).map fun i => [(97 + i).toUInt8, 61, 49])

/-- A request with 17 cookies whose index has no memory for the last one gets the key of a request
without cookies. -/
theorem key_cookies_folded_fails :
    ¬ ∀ (conf : KeyConf) (r : Request) (w : World) (key : CacheKey), KeyNames conf → w.Ok r →
      0 ∉ keyExpression conf r → buildKey conf r w = some key →
        key.data = Http.buildKey conf r := by
  intro h
  have hnames : KeyNames cookieKeyConf := by
    unfold KeyNames
    decide
  have hbare := h cookieKeyConf manyCookies ⟨freshCtx, [true, true, false]⟩ ⟨1, [47]⟩ hnames
    (freshCtx_ok manyCookies) (by decide) (by decide +kernel)
  exact absurd hbare (by decide +kernel)

end KeyCookies
end Http
end CacheTurbo
