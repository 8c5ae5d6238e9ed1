/-
# Memcached replies are framed

The parser of a `get` is compared with the protocol: a hit is a `VALUE` line, the
announced number of bytes and the trailer (`Hit`), and a miss is an `END` line.
Its answers are final, so that the verdict does not depend on how the stream was
read, and a connection is kept only when all that was read is one reply.
-/

import CacheTurbo.L2.Memcached

namespace CacheTurbo
namespace L2

open Bytes Incremental

/-! ## Numbers -/

/-- The number that digits write. -/
def decimalValue (s : Bytes) (value : ℕ) : ℕ := s.foldl (fun v c => v * 10 + (c.toNat - 48)) value

/-- A string of digits, and the number it writes. -/
structure IsDecimal (s : Bytes) (n : ℕ) : Prop where
  nonempty : s ≠ []
  digits : ∀ c ∈ s, 48 ≤ c ∧ c ≤ 57
  value : decimalValue s 0 = n

theorem le_decimalValue (s : Bytes) (value : ℕ) : value ≤ decimalValue s value := by
  induction s generalizing value with
  | nil => exact le_refl _
  | cons c s ih =>
    have hstep := ih (value * 10 + (c.toNat - 48))
    show value ≤ decimalValue s (value * 10 + (c.toNat - 48))
    omega

theorem atoiLoop_eq_some {s : Bytes} {value n : ℕ} (hvalue : value ≤ 2 ^ 63 - 1) :
    atoiLoop s value = some n ↔
      (∀ c ∈ s, 48 ≤ c ∧ c ≤ 57) ∧ decimalValue s value = n ∧ n ≤ 2 ^ 63 - 1 := by
  induction s generalizing value with
  | nil =>
    constructor
    · rintro h
      obtain rfl := Option.some.inj h
      exact ⟨nofun, rfl, hvalue⟩
    · rintro ⟨-, rfl, -⟩
      rfl
  | cons c s ih =>
    unfold atoiLoop
    by_cases hdigit : c < 48 ∨ c > 57
    · rw [if_pos hdigit]
      constructor
      · nofun
      · rintro ⟨hall, -⟩
        obtain ⟨hlow, hhigh⟩ := hall c List.mem_cons_self
        rcases hdigit with h | h
        · exact absurd h (UInt8.not_lt.2 hlow)
        · exact absurd h (UInt8.not_lt.2 hhigh)
    · have hlow : 48 ≤ c := UInt8.not_lt.1 fun h => hdigit (Or.inl h)
      have hhigh : c ≤ 57 := UInt8.not_lt.1 fun h => hdigit (Or.inr h)
      have hnine : c.toNat - 48 ≤ 9 := by
        have hnat : c.toNat ≤ 57 := hhigh
        omega
      rw [if_neg hdigit]
      by_cases hbig : value ≥ (2 ^ 63 - 1) / 10 ∧
          (value > (2 ^ 63 - 1) / 10 ∨ c.toNat - 48 > (2 ^ 63 - 1) % 10)
      · rw [if_pos hbig]
        constructor
        · nofun
        · rintro ⟨-, hval, hle⟩
          have hge := le_decimalValue s (value * 10 + (c.toNat - 48))
          have hval' : decimalValue s (value * 10 + (c.toNat - 48)) = n := hval
          omega
      · rw [if_neg hbig, ih (by omega)]
        constructor
        · rintro ⟨hall, hval, hle⟩
          refine ⟨fun x hx => ?_, hval, hle⟩
          rcases List.mem_cons.1 hx with rfl | hx
          · exact ⟨hlow, hhigh⟩
          · exact hall x hx
        · rintro ⟨hall, hval, hle⟩
          exact ⟨fun x hx => hall x (List.mem_cons_of_mem c hx), hval, hle⟩

/-- **`ngx_atoi` reads decimal numbers** that fit its type. -/
theorem atoi_eq_some {s : Bytes} {n : ℕ} : atoi s = some n ↔ IsDecimal s n ∧ n ≤ 2 ^ 63 - 1 := by
  unfold atoi
  by_cases hs : s = []
  · rw [if_pos hs]
    exact ⟨nofun, fun h => absurd hs h.1.nonempty⟩
  · rw [if_neg hs, atoiLoop_eq_some (Nat.zero_le _)]
    constructor
    · rintro ⟨hall, hval, hle⟩
      exact ⟨⟨hs, hall, hval⟩, hle⟩
    · rintro ⟨⟨-, hall, hval⟩, hle⟩
      exact ⟨hall, hval, hle⟩

/-- What `%ui` prints is read back. -/
theorem isDecimal_decimal (n : ℕ) : IsDecimal (decimal n) n := by
  have hchar : ∀ {c : Char}, c.isDigit → 48 ≤ c.toNat ∧ c.toNat ≤ 57 ∧
      (c.toNat.toUInt8).toNat = c.toNat := by
    intro c hc
    rw [Char.isDigit_iff_toNat] at hc
    have hzero : '0'.toNat = 48 := rfl
    have hnine : '9'.toNat = 57 := rfl
    rw [Nat.toUInt8_eq, UInt8.toNat_ofNat']
    omega
  have hdigit : ∀ c ∈ Nat.toDigits 10 n, c.isDigit := fun c hc =>
    Nat.isDigit_of_mem_toDigits (by decide) (by decide) hc
  refine ⟨decimal_ne_nil n, ?_, ?_⟩
  · intro b hb
    obtain ⟨c, hc, rfl⟩ := List.mem_map.1 hb
    obtain ⟨hlow, hhigh, hval⟩ := hchar (hdigit c hc)
    exact ⟨UInt8.le_iff_toNat_le.2 (by rw [hval]; exact hlow),
      UInt8.le_iff_toNat_le.2 (by rw [hval]; exact hhigh)⟩
  · have hfold : ∀ {l : List Char}, (∀ c ∈ l, c.isDigit) → ∀ v,
        decimalValue (l.map fun c => c.toNat.toUInt8) v = Nat.ofDigitChars 10 l v := by
      intro l
      induction l with
      | nil =>
        intro _ v
        rfl
      | cons c l ih =>
        intro hl v
        obtain ⟨-, -, hval⟩ := hchar (hl c List.mem_cons_self)
        have hrest := ih (fun x hx => hl x (List.mem_cons_of_mem c hx)) (10 * v + (c.toNat - 48))
        rw [Nat.ofDigitChars_cons]
        show decimalValue (l.map fun c => c.toNat.toUInt8) (v * 10 + ((c.toNat.toUInt8).toNat - 48)) = _
        rw [hval, Nat.mul_comm v]
        exact hrest
    have hall := hfold hdigit 0
    rw [Nat.ofDigitChars_ten_toDigits] at hall
    exact hall

/-! ## Replies -/

/-- A `VALUE` line that announces `n` bytes: the key and the flags end at a space, and the
number ends at a space or with the line. -/
def ValueLine (line : Bytes) (n : ℕ) : Prop :=
  ∃ key flags digits more,
    line = valueTag ++ (key ++ 32 :: (flags ++ 32 :: (digits ++ more))) ∧
      32 ∉ key ∧ 32 ∉ flags ∧ IsDecimal digits n ∧ Ended 32 more ∧ 13 ∉ line ∧ n ≤ mcMaxValue

/-- A whole reply with `blob` as its data. -/
def HitReply (reply blob : Bytes) : Prop :=
  ∃ line, ValueLine line blob.length ∧ reply = line ++ (13 :: 10 :: (blob ++ trailer))

/-- The whole reply of a miss. -/
def missReply : Bytes := endTag ++ crlf

theorem IsDecimal.space {digits : Bytes} {n : ℕ} (h : IsDecimal digits n) : 32 ∉ digits := fun hm =>
  absurd (h.digits 32 hm).1 (by decide)

/-- The field that a number is read from. -/
theorem upToSpace_append {digits more : Bytes} (hdigits : 32 ∉ digits) (hmore : Ended 32 more) :
    upToSpace (digits ++ more) = digits := by
  unfold upToSpace
  rcases hmore with rfl | ⟨m, rfl⟩
  · rw [List.append_nil, cut_eq_none.2 hdigits]
  · rw [cut_append hdigits]

/-- **The parser's reading of the first line** is the protocol's. -/
theorem mcValueLen_eq_some {line : Bytes} (hline : 13 ∉ line) {n : ℕ} :
    mcValueLen line = some n ↔ ValueLine line n := by
  constructor
  · intro h
    unfold mcValueLen at h
    by_cases htag : line.take 6 = valueTag
    · rw [if_neg (not_not_intro htag)] at h
      rcases hkey : cut 32 (line.drop 6) with _ | ⟨key, q⟩
      · rw [hkey] at h
        cases h
      rw [hkey] at h
      dsimp only at h
      rcases hflags : cut 32 q with _ | ⟨flags, q'⟩
      · rw [hflags] at h
        cases h
      rw [hflags] at h
      dsimp only at h
      obtain ⟨hkeyEq, hkeyNot⟩ := cut_eq_some.1 hkey
      obtain ⟨rfl, hflagsNot⟩ := cut_eq_some.1 hflags
      have hshape : line = valueTag ++ (key ++ 32 :: (flags ++ 32 :: q')) := by
        rw [← htag, ← hkeyEq, List.take_append_drop]
      obtain ⟨digits, more, rfl, hmore, hread⟩ : ∃ digits more, q' = digits ++ more ∧
          Ended 32 more ∧ upToSpace q' = digits := by
        unfold upToSpace
        rcases hdigits : cut 32 q' with _ | ⟨d, m⟩
        · exact ⟨q', [], (List.append_nil q').symm, Or.inl rfl, rfl⟩
        · exact ⟨d, 32 :: m, (cut_eq_some.1 hdigits).1, Or.inr ⟨m, rfl⟩, rfl⟩
      rw [hread] at h
      rcases hatoi : atoi digits with _ | len
      · rw [hatoi] at h
        cases h
      rw [hatoi] at h
      dsimp only at h
      by_cases hbig : len > mcMaxValue
      · rw [if_pos hbig] at h
        cases h
      rw [if_neg hbig] at h
      obtain rfl := Option.some.inj h
      exact ⟨key, flags, digits, more, hshape, hkeyNot, hflagsNot, (atoi_eq_some.1 hatoi).1, hmore,
        hline, not_lt.1 hbig⟩
    · rw [if_pos htag] at h
      cases h
  · rintro ⟨key, flags, digits, more, rfl, hkey, hflags, hdigits, hmore, -, hle⟩
    have htake : (valueTag ++ (key ++ 32 :: (flags ++ 32 :: (digits ++ more)))).take 6 = valueTag :=
      List.take_left' rfl
    have hdrop : (valueTag ++ (key ++ 32 :: (flags ++ 32 :: (digits ++ more)))).drop 6 =
        key ++ 32 :: (flags ++ 32 :: (digits ++ more)) := List.drop_left' rfl
    have hatoi : atoi digits = some n :=
      atoi_eq_some.2 ⟨hdigits, le_trans hle (by decide)⟩
    unfold mcValueLen
    rw [if_neg (not_not_intro htake), hdrop, cut_append hkey]
    dsimp only
    rw [cut_append hflags]
    dsimp only
    rw [upToSpace_append hdigits.space hmore, hatoi]
    exact if_neg (not_lt.2 hle)

theorem ValueLine.ne_end {line : Bytes} {n : ℕ} (h : ValueLine line n) : line ≠ endTag := by
  obtain ⟨key, flags, digits, more, rfl, -⟩ := h
  exact nofun

/-! ## The parser -/

/-- The parser after the first line. -/
theorem mcParse_line {line : Bytes} (hline : 13 ∉ line) (data : Bytes) :
    mcParse (line ++ 13 :: 10 :: data) =
      if line = endTag then .declined (line.length + 2)
      else
        match mcValueLen line with
        | none => .error
        | some len =>
            if data.length < len + 7 then .again
            else if (data.drop len).take 7 ≠ trailer then .error
            else .ok (data.take len) (line.length + 2 + len + 7) := by
  unfold mcParse
  rw [cut_append hline]
  exact if_neg (not_not_intro rfl)

/-- The parser where the first line does not end as it should. -/
theorem mcParse_bad {line : Bytes} (hline : 13 ∉ line) {c : UInt8} (hc : c ≠ 10) (data : Bytes) :
    mcParse (line ++ 13 :: c :: data) = .error := by
  unfold mcParse
  rw [cut_append hline]
  exact if_pos hc

/-- What the parser has seen when it answers. -/
theorem mcParse_cases {p : Bytes} (h : mcParse p ≠ .again) :
    ∃ line c data, p = line ++ 13 :: c :: data ∧ 13 ∉ line := by
  unfold mcParse at h
  rcases hcut : cut 13 p with _ | ⟨line, _ | ⟨c, data⟩⟩
  · rw [hcut] at h
    exact absurd rfl h
  · rw [hcut] at h
    exact absurd rfl h
  · obtain ⟨rfl, hline⟩ := cut_eq_some.1 hcut
    exact ⟨line, c, data, rfl, hline⟩

theorem trailer_length : trailer.length = 7 := rfl

/-- **A hit is a whole reply**, with nothing said of what follows it. -/
theorem mcParse_eq_ok {p blob : Bytes} {consumed : ℕ} :
    mcParse p = .ok blob consumed ↔
      ∃ reply, HitReply reply blob ∧ reply <+: p ∧ consumed = reply.length := by
  constructor
  · intro h
    obtain ⟨line, c, data, rfl, hline⟩ := mcParse_cases (by rw [h]; nofun)
    by_cases hlf : c = 10
    · subst hlf
      rw [mcParse_line hline] at h
      by_cases hend : line = endTag
      · rw [if_pos hend] at h
        cases h
      rw [if_neg hend] at h
      rcases hlen : mcValueLen line with _ | len
      · rw [hlen] at h
        cases h
      rw [hlen] at h
      dsimp only at h
      by_cases hshort : data.length < len + 7
      · rw [if_pos hshort] at h
        cases h
      rw [if_neg hshort] at h
      by_cases htrail : (data.drop len).take 7 = trailer
      · rw [if_neg (not_not_intro htrail)] at h
        obtain ⟨rfl, rfl⟩ := McParse.ok.inj h
        have hblob : (data.take len).length = len := by
          rw [List.length_take]
          omega
        refine ⟨line ++ (13 :: 10 :: (data.take len ++ trailer)), ⟨line, ?_, rfl⟩,
          ⟨(data.drop len).drop 7, ?_⟩, ?_⟩
        · rw [hblob]
          exact (mcValueLen_eq_some hline).1 hlen
        · have hrest : data.take len ++ (trailer ++ (data.drop len).drop 7) = data := by
            rw [← htrail, List.take_append_drop, List.take_append_drop]
          simp only [List.append_assoc, List.cons_append]
          rw [hrest]
        · simp only [List.length_append, List.length_cons, hblob, trailer_length]
          omega
      · rw [if_pos htrail] at h
        cases h
    · rw [mcParse_bad hline hlf] at h
      cases h
  · rintro ⟨reply, ⟨line, hvalue, rfl⟩, ⟨rest, rfl⟩, rfl⟩
    have hline : 13 ∉ line := by
      obtain ⟨_, _, _, _, _, _, _, _, _, hline, _⟩ := hvalue
      exact hline
    have hshape : line ++ (13 :: 10 :: (blob ++ trailer)) ++ rest =
        line ++ 13 :: 10 :: (blob ++ (trailer ++ rest)) := by
      simp only [List.append_assoc, List.cons_append]
    rw [hshape, mcParse_line hline, if_neg hvalue.ne_end, (mcValueLen_eq_some hline).2 hvalue]
    dsimp only
    rw [if_neg (by simp only [List.length_append, trailer_length]; omega), List.drop_left,
      List.take_left, List.take_left' trailer_length, if_neg (not_not_intro rfl)]
    simp only [List.length_append, List.length_cons, trailer_length]
    congr 1
    omega

/-- **A miss is an `END` line**, with nothing said of what follows it. -/
theorem mcParse_eq_declined {p : Bytes} {consumed : ℕ} :
    mcParse p = .declined consumed ↔ missReply <+: p ∧ consumed = missReply.length := by
  constructor
  · intro h
    obtain ⟨line, c, data, rfl, hline⟩ := mcParse_cases (by rw [h]; nofun)
    by_cases hlf : c = 10
    · subst hlf
      rw [mcParse_line hline] at h
      by_cases hend : line = endTag
      · subst hend
        rw [if_pos rfl] at h
        obtain rfl := McParse.declined.inj h
        exact ⟨⟨data, rfl⟩, rfl⟩
      rw [if_neg hend] at h
      rcases hlen : mcValueLen line with _ | len
      · rw [hlen] at h
        cases h
      rw [hlen] at h
      dsimp only at h
      split_ifs at h
    · rw [mcParse_bad hline hlf] at h
      cases h
  · rintro ⟨⟨rest, rfl⟩, rfl⟩
    have hline : (13 : UInt8) ∉ endTag := by decide
    have hread := mcParse_line hline rest
    rw [if_pos rfl] at hread
    exact hread

/-- A malformed reply stays one. -/
theorem mcParse_error_append {p : Bytes} (h : mcParse p = .error) (y : Bytes) :
    mcParse (p ++ y) = .error := by
  obtain ⟨line, c, data, rfl, hline⟩ := mcParse_cases (by rw [h]; nofun)
  have hshape : line ++ 13 :: c :: data ++ y = line ++ 13 :: c :: (data ++ y) := by
    simp only [List.append_assoc, List.cons_append]
  rw [hshape]
  by_cases hlf : c = 10
  · subst hlf
    rw [mcParse_line hline] at h ⊢
    by_cases hend : line = endTag
    · rw [if_pos hend] at h
      cases h
    rw [if_neg hend] at h ⊢
    rcases hlen : mcValueLen line with _ | len
    · rfl
    rw [hlen] at h
    dsimp only at h ⊢
    by_cases hshort : data.length < len + 7
    · rw [if_pos hshort] at h
      cases h
    rw [if_neg hshort] at h
    have hdrop : (data ++ y).drop len = data.drop len ++ y :=
      List.drop_append_of_le_length (by omega)
    have htake : (data.drop len ++ y).take 7 = (data.drop len).take 7 :=
      List.take_append_of_le_length (by rw [List.length_drop]; omega)
    rw [if_neg (by rw [List.length_append]; omega), hdrop, htake]
    by_cases htrail : (data.drop len).take 7 = trailer
    · rw [if_neg (not_not_intro htrail)] at h
      cases h
    · rw [if_pos htrail]
  · exact mcParse_bad hline hlf _

/-! ## The verdict -/

/-- The verdict on what has been received, or none while the reply is incomplete. -/
def getVerdict (p : Bytes) : Option GetVerdict :=
  match mcParse p with
  | .again => none
  | .error => some .error
  | .declined _ => some .miss
  | .ok blob _ => some (.hit blob)

theorem getVerdict_hit {p blob : Bytes} :
    getVerdict p = some (.hit blob) ↔ ∃ reply, HitReply reply blob ∧ reply <+: p := by
  unfold getVerdict
  constructor
  · intro h
    rcases hparse : mcParse p with _ | _ | n | ⟨b, n⟩
    all_goals rw [hparse] at h
    · cases h
    · cases h
    · cases h
    · obtain rfl := GetVerdict.hit.inj (Option.some.inj h)
      obtain ⟨reply, hreply, hfront, -⟩ := mcParse_eq_ok.1 hparse
      exact ⟨reply, hreply, hfront⟩
  · rintro ⟨reply, hreply, hfront⟩
    rw [mcParse_eq_ok.2 ⟨reply, hreply, hfront, rfl⟩]

theorem getVerdict_miss {p : Bytes} : getVerdict p = some .miss ↔ missReply <+: p := by
  unfold getVerdict
  constructor
  · intro h
    rcases hparse : mcParse p with _ | _ | n | ⟨b, n⟩
    all_goals rw [hparse] at h
    · cases h
    · cases h
    · exact (mcParse_eq_declined.1 hparse).1
    · cases h
  · intro h
    rw [mcParse_eq_declined.2 ⟨h, rfl⟩]

/-- **The verdict is final**: what the server sends later does not change it. -/
theorem getVerdict_final : Final getVerdict := by
  intro p v h y
  have hlonger : p <+: p ++ y := List.prefix_append p y
  cases v with
  | error =>
    unfold getVerdict at h ⊢
    rcases hparse : mcParse p with _ | _ | n | ⟨b, n⟩
    all_goals rw [hparse] at h
    · cases h
    · rw [mcParse_error_append hparse]
    · cases h
    · cases h
  | miss => exact getVerdict_miss.2 ((getVerdict_miss.1 h).trans hlonger)
  | hit blob =>
    obtain ⟨reply, hreply, hfront⟩ := getVerdict_hit.1 h
    exact getVerdict_hit.2 ⟨reply, hreply, hfront.trans hlonger⟩

/-! ## Reading a reply -/

/-- A whole reply of a server to a `get`. -/
def IsReply (reply : Bytes) : Prop := reply = missReply ∨ ∃ blob, HitReply reply blob

/-- What one call of `recv` does. -/
theorem recv_eq_some {e : Recv} {room : ℕ} {s got left : Bytes}
    (h : recv e room s = some (got, left)) : s = got ++ left ∧ got.length ≤ room := by
  cases e with
  | failed => cases h
  | again =>
    obtain ⟨rfl, rfl⟩ := Prod.mk.inj (Option.some.inj h)
    exact ⟨rfl, Nat.zero_le _⟩
  | bytes n =>
    obtain ⟨rfl, rfl⟩ := Prod.mk.inj (Option.some.inj h)
    refine ⟨(List.take_append_drop _ _).symm, ?_⟩
    rw [List.length_take]
    omega

/-- A buffer that cannot grow is full and at the cap; one that grows keeps what it holds. -/
theorem mcGrow_cases (op : McGet) :
    (mcGrow op = none ∧ op.rbuf.length = op.rcap ∧ mcMaxReply ≤ op.rcap) ∨
      ∃ cap, op.rcap ≤ cap ∧ mcGrow op = some { op with rcap := cap } := by
  unfold mcGrow
  by_cases hfull : op.rbuf.length = op.rcap
  · rw [if_pos hfull]
    by_cases hcap : op.rcap ≥ mcMaxReply
    · exact Or.inl ⟨if_pos hcap, hfull, hcap⟩
    · right
      rw [if_neg hcap]
      refine ⟨_, ?_, rfl⟩
      split_ifs
      · exact (not_le.1 hcap).le
      · omega
  · exact Or.inr ⟨op.rcap, le_refl _, if_neg hfull⟩

/-- What one call of `mc_fill` does: it fails at the cap or with the socket, or it appends
what came. -/
theorem mcFill_cases (op : McGet) (e : Recv) (s : Bytes) :
    (mcFill op e s = none ∧ (e = .failed ∨ (op.rbuf.length = op.rcap ∧ mcMaxReply ≤ op.rcap))) ∨
      ∃ cap got left, mcFill op e s = some (⟨op.rbuf ++ got, cap, op.clean⟩, got, left) ∧
        op.rcap ≤ cap ∧ s = got ++ left := by
  unfold mcFill
  rcases mcGrow_cases op with ⟨hnone, hfull⟩ | ⟨cap, hcap, hgrow⟩
  · left
    rw [hnone]
    exact ⟨rfl, Or.inr hfull⟩
  · rw [hgrow]
    dsimp only
    rcases hrecv : recv e (cap - op.rbuf.length) s with _ | ⟨got, left⟩
    · left
      refine ⟨rfl, Or.inl ?_⟩
      cases e with
      | failed => rfl
      | again => cases hrecv
      | bytes n => cases hrecv
    · right
      exact ⟨cap, got, left, rfl, hcap, (recv_eq_some hrecv).1⟩

/-- What a run of the fill loop says of the buffer it started with. -/
structure ReadSpec (es : List Recv) (op : McGet) (s : Bytes) (r : Option GetVerdict × McGet) :
    Prop where
  received : ∃ got, got <+: s ∧ r.2.rbuf = op.rbuf ++ got
  verdict : Recv.failed ∉ es → r.2.rbuf.length < max mcMaxReply op.rcap →
    r.1 = getVerdict r.2.rbuf
  clean : r.2.clean = true → op.clean = true ∨ IsReply r.2.rbuf

theorem McGet.complete_rbuf (op : McGet) (consumed : ℕ) :
    (op.complete consumed).rbuf = op.rbuf := by
  unfold McGet.complete
  split_ifs
  · rfl
  · rfl

theorem McGet.complete_clean {op : McGet} {consumed : ℕ}
    (h : (op.complete consumed).clean = true) :
    op.clean = true ∨ consumed = op.rbuf.length := by
  unfold McGet.complete at h
  split_ifs at h with hall
  · exact Or.inr hall
  · exact Or.inl h

/-- **A run of the fill loop**: what it received is a piece of the stream, and its verdict is
the verdict on that; a connection is marked only after one whole reply.  The induction is
on the events; the buffer holds no whole reply when a read begins. -/
theorem mcReadGet_spec {es : List Recv} {op : McGet} {s : Bytes}
    (hwait : getVerdict op.rbuf = none) : ReadSpec es op s (mcReadGet es op s) := by
  induction es generalizing op s with
  | nil =>
    exact ⟨⟨[], List.nil_prefix, (List.append_nil _).symm⟩, fun _ _ => hwait.symm, fun h => Or.inl h⟩
  | cons e es ih =>
    unfold mcReadGet
    rcases mcFill_cases op e s with ⟨hnone, hwhy⟩ | ⟨cap, got, left, hfill, hcap, rfl⟩
    · rw [hnone]
      refine ⟨⟨[], List.nil_prefix, (List.append_nil _).symm⟩, fun hes hlen => ?_, fun h => Or.inl h⟩
      rcases hwhy with rfl | ⟨hfull, hmax⟩
      · exact absurd List.mem_cons_self hes
      · have hlen' : op.rbuf.length < max mcMaxReply op.rcap := hlen
        omega
    · rw [hfill]
      -- a later event sees the stream where this one left it
      have hrest : ∀ {r : Option GetVerdict × McGet},
          ReadSpec es ⟨op.rbuf ++ got, cap, op.clean⟩ left r →
            ReadSpec (e :: es) op (got ++ left) r := by
        rintro r ⟨⟨more, hmore, hbuf⟩, hverdict, hclean⟩
        refine ⟨⟨got ++ more, (List.prefix_append_right_inj got).2 hmore, ?_⟩, fun hes hlen => ?_,
          hclean⟩
        · rw [hbuf, List.append_assoc]
        · refine hverdict (fun hmem => hes (List.mem_cons_of_mem e hmem)) (lt_of_lt_of_le hlen ?_)
          show max mcMaxReply op.rcap ≤ max mcMaxReply cap
          omega
      have hgot : got <+: got ++ left := List.prefix_append got left
      cases got with
      | nil =>
        dsimp only
        refine hrest (ih ?_)
        rw [List.append_nil]
        exact hwait
      | cons c cs =>
        dsimp only
        rcases hparse : mcParse (op.rbuf ++ c :: cs) with _ | _ | n | ⟨blob, n⟩
        · dsimp only
          refine hrest (ih ?_)
          unfold getVerdict
          rw [hparse]
        · dsimp only
          refine ⟨⟨c :: cs, hgot, rfl⟩, fun _ _ => ?_, fun h => Or.inl h⟩
          unfold getVerdict
          rw [hparse]
        · dsimp only
          refine ⟨⟨c :: cs, hgot, McGet.complete_rbuf _ _⟩, fun _ _ => ?_, fun h => ?_⟩
          · rw [McGet.complete_rbuf]
            unfold getVerdict
            rw [hparse]
          · rw [McGet.complete_rbuf]
            refine (McGet.complete_clean h).imp_right fun hall => Or.inl ?_
            obtain ⟨hfront, hlen⟩ := mcParse_eq_declined.1 hparse
            exact (hfront.eq_of_length (hlen.symm.trans hall)).symm
        · dsimp only
          refine ⟨⟨c :: cs, hgot, McGet.complete_rbuf _ _⟩, fun _ _ => ?_, fun h => ?_⟩
          · rw [McGet.complete_rbuf]
            unfold getVerdict
            rw [hparse]
          · rw [McGet.complete_rbuf]
            refine (McGet.complete_clean h).imp_right fun hall => Or.inr ⟨blob, ?_⟩
            obtain ⟨reply, hreply, hfront, hlen⟩ := mcParse_eq_ok.1 hparse
            rw [← hfront.eq_of_length (hlen.symm.trans hall)]
            exact hreply

/-! ## The drain -/

/-- A whole reply line that leaves a connection usable. -/
def IsAckLine (reply : Bytes) : Prop := ∃ line, reply = line ++ crlf ∧ 10 ∉ line ∧ mcAck reply

/-- **The drain marks a connection only after one whole reply line**, and all that it has
received is that line. -/
theorem mcReadDrain_clean {es : List Recv} {op : McDrain} {s : Bytes} :
    let r := mcReadDrain es op s
    r.2.clean = true → op.clean = true ∨ IsAckLine r.2.recv := by
  induction es generalizing op s with
  | nil => exact fun h => Or.inl h
  | cons e es ih =>
    unfold mcReadDrain
    by_cases hfull : op.recv.length ≥ mcRecvSize
    · rw [if_pos hfull]
      exact fun h => Or.inl h
    rw [if_neg hfull]
    rcases recv e (mcRecvSize - op.recv.length) s with _ | ⟨_ | ⟨c, cs⟩, left⟩
    · exact fun h => Or.inl h
    · exact ih
    · dsimp only
      rcases hcut : cut 10 (op.recv ++ c :: cs) with _ | ⟨line, after⟩
      · exact ih
      obtain ⟨hshape, hline⟩ := cut_eq_some.1 hcut
      dsimp only
      by_cases hcr : line.getLast? = some 13
      · rw [if_neg (not_not_intro hcr)]
        by_cases hack : after = [] ∧ mcAck (op.recv ++ c :: cs) = true
        · rw [if_pos hack]
          intro _
          obtain ⟨rfl, hack⟩ := hack
          obtain ⟨start, rfl⟩ := List.getLast?_eq_some_iff.1 hcr
          refine Or.inr ⟨start, ?_, fun hm => hline (List.mem_append_left _ hm), hack⟩
          show op.recv ++ c :: cs = start ++ crlf
          rw [hshape, List.append_assoc]
          rfl
        · rw [if_neg hack]
          exact fun h => Or.inl h
      · rw [if_pos hcr]
        exact fun h => Or.inl h

/-! ## What was stored is read back -/

theorem hexDigit_plain (c : UInt8) :
    ((32 : UInt8) < Http.hexDigit (c >>> 4) ∧ Http.hexDigit (c >>> 4) < 127) ∧
      (32 : UInt8) < Http.hexDigit (c &&& 15) ∧ Http.hexDigit (c &&& 15) < 127 := by
  have hall : ∀ n : Fin 256,
      ((32 : UInt8) < Http.hexDigit (UInt8.ofNat n.val >>> 4) ∧
        Http.hexDigit (UInt8.ofNat n.val >>> 4) < 127) ∧
      (32 : UInt8) < Http.hexDigit (UInt8.ofNat n.val &&& 15) ∧
        Http.hexDigit (UInt8.ofNat n.val &&& 15) < 127 := by decide +kernel
  have hc := hall ⟨c.toNat, c.toNat_lt⟩
  simpa only [UInt8.ofNat_toNat] using hc

/-- A key of the second level is plain and short. -/
theorem redisKey_plain (pre : L2Prefix) (keyHash : KeyHash) :
    (∀ c ∈ redisKey pre keyHash, 32 < c ∧ c < 127) ∧ (redisKey pre keyHash).length ≤ l2KeyMax := by
  constructor
  · intro c hc
    rcases List.mem_append.1 hc with hc | hc
    · exact pre.printable c hc
    · obtain ⟨d, -, hd⟩ := List.mem_flatMap.1 hc
      obtain ⟨hhi, hlo⟩ := hexDigit_plain d
      rcases List.mem_cons.1 hd with rfl | hd
      · exact hhi
      · obtain rfl := List.mem_singleton.1 hd
        exact hlo
  · have hshort := pre.short
    rw [redisKey, List.length_append, Http.hexDump_length, Vector.length_toList]
    unfold l2KeySuffixMax at hshort
    omega

theorem not_mem_timeDecimal {b : UInt8} (hb : b.toNat < 45) (t : Time) : b ∉ timeDecimal t := by
  unfold timeDecimal
  split_ifs
  · intro hm
    rcases List.mem_cons.1 hm with rfl | hm
    · exact absurd hb (by decide)
    · exact not_mem_decimal (by omega) _ hm
  · exact not_mem_decimal (by omega) _

/-- A number below `10 ^ 7` has at most seven digits. -/
theorem decimal_length_le_of_lt {n k : ℕ} (hk : 0 < k) (h : n < 10 ^ k) :
    (decimal n).length ≤ k := by
  rw [decimal, List.length_map]
  exact (Nat.length_toDigits_le_iff (by decide) hk).2 h

/-- The stored item is what the command says, and its reply is a hit with the blob. -/
theorem serverReply_hit {key blob : Bytes} (hkey : ∀ c ∈ key, 32 < c ∧ c < 127)
    (hblob : blob.length ≤ mcMaxValue) :
    HitReply (serverReply ⟨key, lit ['0'], blob⟩) blob := by
  have hspace : (32 : UInt8) ∉ key := fun hm => absurd (hkey 32 hm).1 (by decide)
  have hcr : (13 : UInt8) ∉ key := fun hm => absurd (hkey 13 hm).1 (by decide)
  refine ⟨valueTag ++ (key ++ 32 :: (lit ['0'] ++ 32 :: (decimal blob.length ++ []))),
    ⟨key, lit ['0'], decimal blob.length, [], rfl, hspace, by decide, isDecimal_decimal _,
      Or.inl rfl, ?_, hblob⟩, ?_⟩
  · have hdigits : (13 : UInt8) ∉ decimal blob.length := not_mem_decimal (by decide) _
    have htag : (13 : UInt8) ∉ valueTag := by decide
    have hzero : (13 : UInt8) ∉ lit ['0'] := by decide
    simp [hcr, hdigits, htag, hzero]
  · simp [serverReply, crlf, List.append_assoc]

/-- **A conforming server stores what was sent**: the command that the encoder writes has its
fields and its data block where the protocol puts them. -/
theorem serverSet_memcachedSet {pre : L2Prefix} {now : Time} {keyHash : KeyHash} {blob : Bytes}
    {retainTtl : Time} {wire : Bytes}
    (h : memcachedSet pre now keyHash blob retainTtl = some wire) :
    blob.length < mcMaxValue ∧ serverSet wire = some ⟨redisKey pre keyHash, lit ['0'], blob⟩ := by
  unfold memcachedSet at h
  by_cases hbig : blob.length ≥ mcMaxValue
  · rw [if_pos hbig] at h
    cases h
  rw [if_neg hbig] at h
  by_cases httl : retainTtl ≤ 0
  · rw [if_pos httl] at h
    cases h
  rw [if_neg httl] at h
  dsimp only at h
  generalize (if retainTtl > 60 * 60 * 24 * 30 then now + retainTtl else retainTtl) = expire at h
  obtain rfl := Option.some.inj h
  have hlen : blob.length < mcMaxValue := not_le.1 hbig
  obtain ⟨hkey, hkeyLen⟩ := redisKey_plain pre keyHash
  generalize redisKey pre keyHash = key at hkey hkeyLen ⊢
  have hplain : ∀ b : UInt8, b = 13 ∨ b = 32 → b ∉ key ∧ b ∉ timeDecimal expire ∧
      b ∉ decimal blob.length ∧ b ∉ lit ['s', 'e', 't'] ∧ b ∉ lit ['0'] := by
    rintro b (rfl | rfl)
    · exact ⟨fun hm => absurd (hkey 13 hm).1 (by decide), not_mem_timeDecimal (by decide) _,
        not_mem_decimal (by decide) _, by decide, by decide⟩
    · exact ⟨fun hm => absurd (hkey 32 hm).1 (by decide), not_mem_timeDecimal (by decide) _,
        not_mem_decimal (by decide) _, by decide, by decide⟩
  obtain ⟨hkey13, htime13, hnum13, hset13, hzero13⟩ := hplain 13 (Or.inl rfl)
  obtain ⟨hkey32, htime32, hnum32, hset32, hzero32⟩ := hplain 32 (Or.inr rfl)
  have hshape : lit ['s', 'e', 't', ' '] ++ key ++ lit [' ', '0', ' '] ++ timeDecimal expire ++
      lit [' '] ++ decimal blob.length ++ crlf ++ blob ++ crlf =
      (lit ['s', 'e', 't'] ++ 32 :: (key ++ 32 :: (lit ['0'] ++ 32 ::
        (timeDecimal expire ++ 32 :: decimal blob.length)))) ++ 13 :: 10 :: (blob ++ crlf) := by
    simp [lit, crlf, List.append_assoc]
  have hline : (13 : UInt8) ∉ lit ['s', 'e', 't'] ++ 32 :: (key ++ 32 :: (lit ['0'] ++ 32 ::
      (timeDecimal expire ++ 32 :: decimal blob.length))) := by
    simp [hkey13, htime13, hnum13, hset13, hzero13]
  have hatoi : atoi (decimal blob.length) = some blob.length :=
    atoi_eq_some.2 ⟨isDecimal_decimal _, le_trans hlen.le (by decide)⟩
  refine ⟨hlen, ?_⟩
  rw [hshape]
  unfold serverSet
  simp only [cut_append hline, cut_append hset32, cut_append hkey32, cut_append hzero32,
    cut_append htime32, hatoi, Option.bind_eq_bind, Option.bind_some, List.drop_succ_cons,
    List.drop_zero, List.take_left]
  exact if_pos ⟨trivial, hkeyLen, trivial, trivial⟩

/-- The reply for a blob that may be stored fits the buffer. -/
theorem serverReply_length_lt {key blob : Bytes} (hkey : key.length ≤ l2KeyMax)
    (hblob : blob.length < mcMaxValue) :
    (serverReply ⟨key, lit ['0'], blob⟩).length < mcMaxReply := by
  have hdigits : (decimal blob.length).length ≤ 7 :=
    decimal_length_le_of_lt (by decide) (lt_trans hblob (by decide))
  have hvalue : valueTag.length = 6 := rfl
  have hcrlf : crlf.length = 2 := rfl
  have hzero : (lit ['0']).length = 1 := rfl
  unfold l2KeyMax at hkey
  unfold mcMaxReply
  simp only [serverReply, List.length_append, List.length_cons, hvalue, hcrlf, hzero,
    trailer_length]
  omega

/-! ## Framing -/

/-- A reply of two bytes of data, with a piece of the next reply behind it. -/
def hiStream : Bytes :=
  lit ['V', 'A', 'L', 'U', 'E', ' ', 'k', ' ', '0', ' ', '2', '\r', '\n', 'h', 'i', '\r', '\n', 'E',
    'N', 'D', '\r', '\n', 'E', 'N']

end L2
end CacheTurbo
