/-
# What a captured body is

The accounting of `ngx_http_cache_turbo_body_filter_capture` over all the calls of a response.
`Kept` says what the chain in the context holds, down to the links and the payloads behind
them; one buffer of the copying pass keeps it (`Kept.copyBuf`), and so does a call
(`Kept.capture`).

A call that gets no block answers with an error and leaves the capture on, without its bytes.
The exits that abandon the capture turn it off.  So the accounting is right for as long as no
call after such an error ends the response, and `accounted_iff` says so for every run.
-/

import CacheTurbo.Lib.Run
import CacheTurbo.Http.BodyCapture

namespace CacheTurbo
namespace Http
namespace BodyCapture

open Bytes

/-! ## Bytes -/

theorem readRange_memcpy_self (m : ℕ → UInt8) (p : ℕ) (src : Bytes) :
    readRange (memcpy m p src) p (p + src.length) = src := by
  unfold readRange
  rw [Nat.add_sub_cancel_left]
  refine List.ext_getElem (by rw [List.length_map, List.length_range]) fun i h₁ h₂ => ?_
  rw [List.getElem_map, List.getElem_range]
  unfold memcpy
  rw [if_pos (Nat.le_add_right p i), Nat.add_sub_cancel_left, List.getD_eq_getElem _ _ h₂]

/-- What is before the place of a copy is not touched. -/
theorem readRange_memcpy_before (m : ℕ → UInt8) {p last : ℕ} (h : last ≤ p) (pos : ℕ)
    (src : Bytes) : readRange (memcpy m p src) pos last = readRange m pos last := by
  unfold readRange
  refine List.map_congr_left fun i hi => ?_
  have hlt := List.mem_range.1 hi
  exact if_neg (by omega)

/-- Both passes take of a buffer what is in memory of it. -/
theorem bufLen_eq {b : ChainBuf}
    (hb : b.memory = true → b.pos ≤ b.last ∧ b.last ≤ b.block.length ∧
      b.block.length < sizeTWords) : bufLen b = (memoryBytes b).length ∧ bufLen b < sizeTWords := by
  unfold bufLen memoryBytes
  by_cases hm : b.memory = true
  · obtain ⟨-, hlast, hblock⟩ := hb hm
    rw [if_pos hm, if_pos hm, List.length_drop, List.length_take, Nat.min_eq_left hlast]
    exact ⟨rfl, (Nat.sub_le _ _).trans_lt (hlast.trans_lt hblock)⟩
  · rw [if_neg hm, if_neg hm]
    exact ⟨rfl, by decide⟩

/-! ## The chain -/

/-- The links `ids` are the captured chain, and hold `data`.  They are of blocks before `block`,
or of this one at places before `i`; the pieces of this one are before `p`. -/
structure Kept (ctx : Ctx) (pool : Pool) (block i p : ℕ) (ids : List LinkId) (data : Bytes) :
    Prop where
  list : TailList.Holds ⟨ctx.body, ctx.bodyLast, pool.next⟩ ids
  older : ∀ id ∈ ids, id.1 < block ∨ id.1 = block ∧ id.2 < i
  own : ∀ id ∈ ids, (pool.buf id).block = id.1
  filled : ∀ id ∈ ids, id.1 = block → (pool.buf id).last ≤ p
  count : ids.length ≤ pool.links
  data : ids.flatMap (pieceBytes pool) = data

/-- The walk over the chain gives what it holds. -/
theorem Kept.bodyBytes {ctx : Ctx} {pool : Pool} {block i p : ℕ} {ids : List LinkId} {data : Bytes}
    (h : Kept ctx pool block i p ids data) : BodyCapture.bodyBytes ctx pool = data := by
  unfold BodyCapture.bodyBytes
  rw [h.list.seg.walk h.count]
  exact h.data

/-- What the copying pass leaves alone. -/
structure SameRest (ctx ctx' : Ctx) (pool pool' : Pool) : Prop where
  sieServing : ctx'.sieServing = ctx.sieServing
  captured : ctx'.captured = ctx.captured
  served : ctx'.served = ctx.served
  bodyLen : ctx'.bodyLen = ctx.bodyLen
  blocks : pool'.blocks = pool.blocks
  used : pool'.used = pool.used

theorem SameRest.trans {ctx ctx' ctx'' : Ctx} {pool pool' pool'' : Pool}
    (h : SameRest ctx ctx' pool pool') (h' : SameRest ctx' ctx'' pool' pool'') :
    SameRest ctx ctx'' pool pool'' :=
  ⟨h'.sieServing.trans h.sieServing, h'.captured.trans h.captured, h'.served.trans h.served,
    h'.bodyLen.trans h.bodyLen, h'.blocks.trans h.blocks, h'.used.trans h.used⟩

/-- The copying pass after some buffers: the cursor is at the end of the chain, and the bytes
so far are `data`. -/
structure CopyOk (block : ℕ) (c : Copying) (data : Bytes) : Prop where
  kept : ∃ ids, Kept c.ctx c.pool block c.cursor.i c.cursor.p ids data
  ll : c.cursor.ll = c.ctx.bodyLast

/-- What one buffer does to the pass. -/
theorem copyBuf_eq (block : ℕ) (c : Copying) {b : ChainBuf} (hn : bufLen b ≠ 0)
    (hll : c.cursor.ll = c.ctx.bodyLast) :
    SameRest c.ctx (copyBuf block c b).ctx c.pool (copyBuf block c b).pool ∧
    (⟨(copyBuf block c b).ctx.body, (copyBuf block c b).ctx.bodyLast,
        (copyBuf block c b).pool.next⟩ : TailList.Links LinkId) =
      TailList.push ⟨c.ctx.body, c.ctx.bodyLast, c.pool.next⟩ c.ctx.bodyLast
        (block, c.cursor.i) ∧
    (copyBuf block c b).pool.payload = Function.update c.pool.payload block
      (memcpy (c.pool.payload block) c.cursor.p (memoryBytes b)) ∧
    (copyBuf block c b).pool.buf = Function.update c.pool.buf (block, c.cursor.i)
      ⟨block, c.cursor.p, c.cursor.p + bufLen b⟩ ∧
    (copyBuf block c b).pool.links = c.pool.links + 1 ∧
    (copyBuf block c b).ctx.bodyLast = some (block, c.cursor.i) ∧
    (copyBuf block c b).cursor =
      ⟨some (block, c.cursor.i), c.cursor.p + bufLen b, c.cursor.i + 1⟩ := by
  unfold copyBuf
  rw [if_neg hn, hll]
  cases hlast : c.ctx.bodyLast with
  | none =>
    refine ⟨⟨rfl, rfl, rfl, rfl, rfl, rfl⟩, ?_, rfl, rfl, rfl, rfl, rfl⟩
    rfl
  | some l =>
    refine ⟨⟨rfl, rfl, rfl, rfl, rfl, rfl⟩, ?_, rfl, rfl, rfl, rfl, rfl⟩
    rfl

/-- A buffer that is copied. -/
structure Fits (b : ChainBuf) : Prop where
  len : bufLen b = (memoryBytes b).length
  small : bufLen b < sizeTWords

/-- **One buffer** is put behind the chain, and its bytes behind the ones before. -/
theorem CopyOk.copyBuf {block : ℕ} {c : Copying} {data : Bytes} (h : CopyOk block c data)
    {b : ChainBuf} (hb : Fits b) :
    CopyOk block (BodyCapture.copyBuf block c b) (data ++ memoryBytes b) ∧
      SameRest c.ctx (BodyCapture.copyBuf block c b).ctx c.pool
        (BodyCapture.copyBuf block c b).pool ∧
      (BodyCapture.copyBuf block c b).cursor.p = c.cursor.p + bufLen b ∧
      (BodyCapture.copyBuf block c b).cursor.i =
        c.cursor.i + if bufLen b = 0 then 0 else 1 := by
  by_cases hn : bufLen b = 0
  · have hsame : BodyCapture.copyBuf block c b = c := if_pos hn
    have hnil : memoryBytes b = [] := List.eq_nil_of_length_eq_zero (hb.len.symm.trans hn)
    rw [hsame, hnil, List.append_nil, hn, if_pos rfl]
    exact ⟨h, ⟨rfl, rfl, rfl, rfl, rfl, rfl⟩, rfl, rfl⟩
  · obtain ⟨hrest, hlinks, hpayload, hbuf, hcount, hlast, hcursor⟩ := copyBuf_eq block c hn h.ll
    obtain ⟨ids, hk⟩ := h.kept
    have hnew : (block, c.cursor.i) ∉ ids := by
      intro hmem
      rcases hk.older _ hmem with hlt | ⟨-, hlt⟩
      · exact Nat.lt_irrefl _ hlt
      · exact Nat.lt_irrefl _ hlt
    have hold : ∀ id ∈ ids, pieceBytes (BodyCapture.copyBuf block c b).pool id =
        pieceBytes c.pool id := by
      intro id hid
      have hne : id ≠ (block, c.cursor.i) := fun he => hnew (he ▸ hid)
      unfold pieceBytes
      rw [hpayload, hbuf, Function.update_of_ne hne, hk.own id hid]
      by_cases hblock : id.1 = block
      · rw [hblock, Function.update_self]
        exact readRange_memcpy_before _ (hk.filled id hid hblock) _ _
      · rw [Function.update_of_ne hblock]
    have hpiece : pieceBytes (BodyCapture.copyBuf block c b).pool (block, c.cursor.i) =
        memoryBytes b := by
      unfold pieceBytes
      rw [hpayload, hbuf, Function.update_self, Function.update_self, hb.len]
      exact readRange_memcpy_self _ _ _
    refine ⟨⟨⟨ids ++ [(block, c.cursor.i)], ?_, ?_, ?_, ?_, ?_, ?_⟩, ?_⟩, hrest, ?_, ?_⟩
    · rw [hlinks]
      exact hk.list.push hnew
    · intro id hid
      rw [hcursor]
      rcases List.mem_append.1 hid with hid | hid
      · rcases hk.older id hid with hlt | ⟨heq, hlt⟩
        · exact Or.inl hlt
        · exact Or.inr ⟨heq, Nat.lt_succ_of_lt hlt⟩
      · obtain rfl := List.mem_singleton.1 hid
        exact Or.inr ⟨rfl, Nat.lt_succ_self _⟩
    · intro id hid
      rw [hbuf]
      rcases List.mem_append.1 hid with hid | hid
      · rw [Function.update_of_ne fun he : id = (block, c.cursor.i) => hnew (he ▸ hid)]
        exact hk.own id hid
      · obtain rfl := List.mem_singleton.1 hid
        rw [Function.update_self]
    · intro id hid hblock
      rw [hbuf, hcursor]
      rcases List.mem_append.1 hid with hid | hid
      · rw [Function.update_of_ne fun he : id = (block, c.cursor.i) => hnew (he ▸ hid)]
        exact (hk.filled id hid hblock).trans (Nat.le_add_right _ _)
      · obtain rfl := List.mem_singleton.1 hid
        rw [Function.update_self]
    · rw [hcount, List.length_append]
      exact Nat.succ_le_succ hk.count
    · rw [List.flatMap_append, List.flatMap_singleton, hpiece, ← hk.data]
      exact congrArg (· ++ memoryBytes b) (List.flatMap_congr hold)
    · rw [hcursor, hlast]
    · rw [hcursor]
    · rw [hcursor, if_neg hn]

/-- The bytes of a chain that are in memory. -/
def chainBytes (chain : List ChainBuf) : Bytes := chain.flatMap memoryBytes

/-- How many buffers of a chain have any. -/
def chainCount (chain : List ChainBuf) : ℕ := chain.countP fun b => bufLen b ≠ 0

/-- **The copying pass** puts all the bytes of the incoming chain behind the captured one. -/
theorem copyPass_ok {block : ℕ} {c : Copying} {data : Bytes} (h : CopyOk block c data)
    {chain : List ChainBuf} (hfits : ∀ b ∈ chain, Fits b) :
    CopyOk block (chain.foldl (copyBuf block) c) (data ++ chainBytes chain) ∧
      SameRest c.ctx (chain.foldl (copyBuf block) c).ctx c.pool
        (chain.foldl (copyBuf block) c).pool ∧
      (chain.foldl (copyBuf block) c).cursor.p = c.cursor.p + (chainBytes chain).length ∧
      (chain.foldl (copyBuf block) c).cursor.i = c.cursor.i + chainCount chain := by
  induction chain generalizing c data with
  | nil =>
    unfold chainBytes
    rw [List.flatMap_nil, List.append_nil]
    exact ⟨h, ⟨rfl, rfl, rfl, rfl, rfl, rfl⟩, rfl, rfl⟩
  | cons b chain ih =>
    obtain ⟨hok, hrest, hp, hi⟩ := h.copyBuf (hfits b (List.mem_cons_self ..))
    obtain ⟨hok', hrest', hp', hi'⟩ := ih hok fun b' hb' => hfits b' (List.mem_cons_of_mem b hb')
    have hlen := (hfits b (List.mem_cons_self ..)).len
    refine ⟨?_, hrest.trans hrest', ?_, ?_⟩
    · rw [List.append_assoc] at hok'
      exact hok'
    · rw [List.foldl_cons, hp', hp]
      unfold chainBytes
      rw [List.flatMap_cons, List.length_append, ← hlen, Nat.add_assoc]
    · rw [List.foldl_cons, hi', hi]
      unfold chainCount
      rw [List.countP_cons, Nat.add_assoc]
      congr 1
      by_cases hn : bufLen b = 0
      · rw [if_pos hn, if_neg (by simp [hn]), Nat.zero_add, Nat.add_zero]
      · rw [if_neg hn, if_pos (by simp [hn]), Nat.add_comm]

/-! ## The counting pass -/

/-- The chain has data that is in a file alone, or more than there is room for behind `len`
bytes. -/
def Refused (maxSize len : ℕ) (chain : List ChainBuf) : Prop :=
  chain.any fileBacked = true ∨ 0 < maxSize ∧ maxSize < len + (chainBytes chain).length

instance (maxSize len : ℕ) (chain : List ChainBuf) : Decidable (Refused maxSize len chain) :=
  inferInstanceAs (Decidable (_ ∨ _))

/-- The chain ends the response. -/
def marks (chain : List ChainBuf) : Bool := chain.any fun b => b.lastBuf || b.lastInChain

/-- The counting pass gathers the marks one buffer at a time. -/
theorem or_marks_cons (last : Bool) (b : ChainBuf) (chain : List ChainBuf) :
    (last || b.lastBuf || b.lastInChain || marks chain) = (last || marks (b :: chain)) := by
  have hmarks : marks (b :: chain) = ((b.lastBuf || b.lastInChain) || marks chain) := rfl
  rw [hmarks, Bool.or_assoc last, Bool.or_assoc last]

theorem chainBytes_cons {b : ChainBuf} (hb : Fits b) (chain : List ChainBuf) :
    (chainBytes (b :: chain)).length = bufLen b + (chainBytes chain).length := by
  unfold chainBytes
  rw [List.flatMap_cons, List.length_append, hb.len]

theorem chainCount_cons (b : ChainBuf) (chain : List ChainBuf) :
    chainCount (b :: chain) = (if bufLen b > 0 then 1 else 0) + chainCount chain := by
  unfold chainCount
  rw [List.countP_cons, Nat.add_comm]
  congr 1
  by_cases hn : bufLen b > 0
  · rw [if_pos hn, if_pos (by simpa using Nat.pos_iff_ne_zero.1 hn)]
  · rw [if_neg hn, if_neg (by simpa using Nat.eq_zero_of_not_pos hn)]

/-- **A chain that is not refused is counted**, and only without a limit can the sum wrap. -/
theorem scan_counted {maxSize bodyLen : ℕ} {chain : List ChainBuf} (hfits : ∀ b ∈ chain, Fits b)
    {total : ℕ} (hsmall : total < sizeTWords) (hno : ¬Refused maxSize (bodyLen + total) chain)
    (nbufs : ℕ) (last : Bool) :
    scan maxSize bodyLen chain total nbufs last =
      .counted ((total + (chainBytes chain).length) % sizeTWords) (nbufs + chainCount chain)
        (last || marks chain) := by
  induction chain generalizing total nbufs last with
  | nil =>
    rw [scan]
    show _ = Scan.counted (total % sizeTWords) nbufs (last || false)
    rw [Nat.mod_eq_of_lt hsmall, Bool.or_false]
  | cons b chain ih =>
    have hb := hfits b (List.mem_cons_self ..)
    have hrest : ∀ b' ∈ chain, Fits b' := fun b' hb' => hfits b' (List.mem_cons_of_mem b hb')
    unfold Refused at hno
    rw [not_or, chainBytes_cons hb, List.any_cons, Bool.or_eq_true, not_or] at hno
    obtain ⟨⟨hmemory, hmemories⟩, hroom⟩ := hno
    rw [scan, if_neg hmemory, chainBytes_cons hb, chainCount_cons, ← or_marks_cons]
    by_cases hn : bufLen b > 0
    · have hlimit : ¬(maxSize > 0 ∧ (total > maxSize ∨ bufLen b > maxSize - total ∨
          bodyLen > maxSize - total - bufLen b)) := by
        rintro ⟨hpos, hover⟩
        refine hroom ⟨hpos, ?_⟩
        omega
      have hno' : ¬Refused maxSize (bodyLen + (total + bufLen b) % sizeTWords) chain := by
        rintro (hfile | ⟨hpos, hover⟩)
        · exact hmemories hfile
        · have hmod := Nat.mod_le (total + bufLen b) sizeTWords
          refine hroom ⟨hpos, ?_⟩
          omega
      rw [if_pos hn, if_neg hlimit, ih hrest (Nat.mod_lt _ (by decide)) hno', if_pos hn,
        Nat.mod_add_mod]
      congr 1
      · rw [Nat.add_assoc]
      · rw [Nat.add_assoc]
    · have hzero := Nat.eq_zero_of_not_pos hn
      rw [if_neg hn, if_neg hn, hzero, Nat.zero_add, Nat.zero_add,
        ih hrest hsmall fun hr => ?_]
      · rcases hr with hfile | ⟨hpos, hover⟩
        · exact hmemories hfile
        · exact hroom ⟨hpos, by omega⟩

/-- **A chain that is refused** is found out. -/
theorem scan_refused {maxSize bodyLen : ℕ} (hmax : maxSize < sizeTWords) {chain : List ChainBuf}
    (hfits : ∀ b ∈ chain, Fits b) {total : ℕ} (hlen : 0 < maxSize → bodyLen + total ≤ maxSize)
    (hrefused : Refused maxSize (bodyLen + total) chain) (nbufs : ℕ) (last : Bool) :
    scan maxSize bodyLen chain total nbufs last = .fileBacked ∨
      scan maxSize bodyLen chain total nbufs last = .oversize := by
  induction chain generalizing total nbufs last with
  | nil =>
    rcases hrefused with hfile | ⟨hpos, hover⟩
    · cases hfile
    · exact absurd (hlen hpos) (Nat.not_le.2 hover)
  | cons b chain ih =>
    have hb := hfits b (List.mem_cons_self ..)
    have hrest : ∀ b' ∈ chain, Fits b' := fun b' hb' => hfits b' (List.mem_cons_of_mem b hb')
    unfold Refused at hrefused
    rw [chainBytes_cons hb, List.any_cons, Bool.or_eq_true] at hrefused
    rw [scan]
    by_cases hfile : fileBacked b = true
    · rw [if_pos hfile]
      exact Or.inl rfl
    · rw [if_neg hfile]
      by_cases hn : bufLen b > 0
      · rw [if_pos hn]
        by_cases hover : maxSize > 0 ∧ (total > maxSize ∨ bufLen b > maxSize - total ∨
            bodyLen > maxSize - total - bufLen b)
        · rw [if_pos hover]
          exact Or.inr rfl
        · rw [if_neg hover]
          -- within a limit the sum does not wrap
          have hsum : 0 < maxSize → (total + bufLen b) % sizeTWords = total + bufLen b ∧
              bodyLen + (total + bufLen b) ≤ maxSize := by
            intro hpos
            have hfit : bodyLen + (total + bufLen b) ≤ maxSize := by
              have := fun h => hover ⟨hpos, h⟩
              have := hlen hpos
              omega
            exact ⟨Nat.mod_eq_of_lt (by omega), hfit⟩
          refine ih hrest (fun hpos => ?_) ?_ _ _
          · rw [(hsum hpos).1]
            exact (hsum hpos).2
          · rcases hrefused with (hb' | hfiles) | ⟨hpos, hmore⟩
            · exact absurd hb' hfile
            · exact Or.inl hfiles
            · refine Or.inr ⟨hpos, ?_⟩
              rw [(hsum hpos).1]
              omega
      · rw [if_neg hn]
        refine ih hrest hlen ?_ _ _
        rcases hrefused with (hb' | hfiles) | ⟨hpos, hmore⟩
        · exact absurd hb' hfile
        · exact Or.inl hfiles
        · exact Or.inr ⟨hpos, by omega⟩

/-! ## The block -/

/-- The size of the block for so many bytes and buffers. -/
def blockBytes (len count : ℕ) : ℕ := len + ngxAlignment + count * (sizeofBuf + sizeofChain)

/-- **The guards** let through the sizes that do not wrap. -/
theorem blockSize_eq {total nbufs : ℕ} (hn : nbufs * (sizeofBuf + sizeofChain) ≤ sizeTMax) :
    blockSize total nbufs =
      if blockBytes total nbufs ≤ sizeTMax then some (blockBytes total nbufs) else none := by
  unfold blockSize blockBytes sizeofBuf sizeofChain ngxAlignment sizeTMax sizeTWords at *
  have hmeta : nbufs * (80 + 16) % 0x10000000000000000 = nbufs * (80 + 16) :=
    Nat.mod_eq_of_lt (by omega)
  have hbufs : nbufs * 80 % 0x10000000000000000 = nbufs * 80 := Nat.mod_eq_of_lt (by omega)
  rw [if_neg (by omega)]
  dsimp only
  rw [hmeta, hbufs]
  by_cases hfit : total + 8 + nbufs * (80 + 16) ≤ 0x7fffffffffffffff
  · have htotal : (total + 8) % 0x10000000000000000 = total + 8 := Nat.mod_eq_of_lt (by omega)
    rw [htotal, if_neg (by omega), if_pos hfit, Nat.mod_eq_of_lt (by omega)]
  · rw [if_neg hfit]
    by_cases htotal : total > 0x7fffffffffffffff - 8
    · rw [if_pos (Or.inr (Or.inl htotal))]
    · have hsum : (total + 8) % 0x10000000000000000 = total + 8 := Nat.mod_eq_of_lt (by omega)
      rw [hsum, if_pos (Or.inr (Or.inr (by omega)))]

/-- The block of a call is filled up, and not written beyond: the bytes are where the payload
ends, the buffers and links where their arrays do, and these are in the block and behind the
payload. -/
structure Filled (u : BlockUse) : Prop where
  payload : u.cursor.p = u.total
  arrays : u.cursor.i = u.nbufs
  behind : u.base + u.total ≤ alignPtr (u.base + u.total)
  inside : alignPtr (u.base + u.total) + u.nbufs * (sizeofBuf + sizeofChain) ≤ u.base + u.size

/-- A block of the right size has room for its arrays. -/
theorem Filled.of_size {base total nbufs : ℕ} {cursor : Cursor} (hp : cursor.p = total)
    (hi : cursor.i = nbufs) : Filled ⟨base, blockBytes total nbufs, total, nbufs, cursor⟩ := by
  refine ⟨hp, hi, ?_, ?_⟩
  · show base + total ≤ alignPtr (base + total)
    unfold alignPtr ngxAlignment
    omega
  · show alignPtr (base + total) + nbufs * (sizeofBuf + sizeofChain) ≤ base + blockBytes total nbufs
    unfold alignPtr blockBytes ngxAlignment
    omega

/-- A call gets its block. -/
def Granted (pool : Pool) (call : Call) : Prop :=
  blockBytes (chainBytes call.chain).length (chainCount call.chain) ≤ sizeTMax ∧
    call.room = true ∧
    pool.used + blockBytes (chainBytes call.chain).length (chainCount call.chain) ≤ sizeTWords

instance (pool : Pool) (call : Call) : Decidable (Granted pool call) :=
  inferInstanceAs (Decidable (_ ∧ _))

theorem Call.fits (call : Call) : ∀ b ∈ call.chain, Fits b := fun b hb =>
  ⟨(bufLen_eq (call.bounds b hb)).1, (bufLen_eq (call.bounds b hb)).2⟩

theorem Call.count_le (call : Call) :
    chainCount call.chain * (sizeofBuf + sizeofChain) ≤ sizeTMax :=
  (Nat.mul_le_mul_right _ List.countP_le_length).trans call.inMemory

/-- A chain without bytes has no buffer with any. -/
theorem chainCount_eq_zero {chain : List ChainBuf} (hfits : ∀ b ∈ chain, Fits b) :
    chainCount chain = 0 ↔ chainBytes chain = [] := by
  unfold chainCount chainBytes
  rw [List.countP_eq_zero, List.flatMap_eq_nil_iff]
  refine forall₂_congr fun b hb => ?_
  rw [← List.length_eq_zero_iff, ← (hfits b hb).len]
  simp

/-! ## A call -/

/-- The bytes a call asks a block for do not get one. -/
def Fails (pool : Pool) (call : Call) : Prop := chainBytes call.chain ≠ [] ∧ ¬Granted pool call

instance (pool : Pool) (call : Call) : Decidable (Fails pool call) :=
  inferInstanceAs (Decidable (_ ∧ _))

/-- What a call brings cannot be counted: without a limit, more than a `size_t` counts. -/
def Uncounted (maxSize : ℕ) (chain : List ChainBuf) : Prop :=
  maxSize = 0 ∧ chain.any fileBacked = false ∧ sizeTWords ≤ (chainBytes chain).length

instance (maxSize : ℕ) (chain : List ChainBuf) : Decidable (Uncounted maxSize chain) :=
  inferInstanceAs (Decidable (_ ∧ _))

/-- The call has data that is in a file alone, goes over the limit, or gets no block. -/
def Meets (maxSize len : ℕ) (pool : Pool) (call : Call) : Prop :=
  Refused maxSize len call.chain ∨ Fails pool call

instance (maxSize len : ℕ) (pool : Pool) (call : Call) : Decidable (Meets maxSize len pool call) :=
  inferInstanceAs (Decidable (_ ∨ _))

/-- What the captured chain holds between the calls. -/
structure Holding (maxSize : ℕ) (ctx : Ctx) (pool : Pool) (data : Bytes) : Prop where
  kept : ∃ ids, Kept ctx pool pool.blocks 0 0 ids data
  bodyLen : ctx.bodyLen = data.length
  used : ctx.bodyLen ≤ pool.used
  limit : 0 < maxSize → ctx.bodyLen ≤ maxSize

section Capture

variable {maxSize : ℕ} {ctx : Ctx} {pool : Pool} {data : Bytes} {call : Call}

/-- A refused call abandons the capture. -/
theorem capture_refused (hmax : maxSize < sizeTWords) (h : Holding maxSize ctx pool data)
    (hrefused : Refused maxSize ctx.bodyLen call.chain) :
    bodyFilterCapture maxSize ctx pool call = ⟨abandon ctx, pool, .declined, false, none⟩ := by
  unfold bodyFilterCapture
  rcases @scan_refused maxSize ctx.bodyLen hmax call.chain call.fits 0 h.limit hrefused 0 false with
    hscan | hscan
  · rw [hscan]
  · rw [hscan]

/-- What the counting pass gives for a call that is not refused. -/
theorem scan_call (hmax : maxSize < sizeTWords) (hno : ¬Refused maxSize ctx.bodyLen call.chain)
    (hcounted : ¬Uncounted maxSize call.chain) :
    scan maxSize ctx.bodyLen call.chain 0 0 false =
      .counted (chainBytes call.chain).length (chainCount call.chain) (marks call.chain) := by
  have hsmall : (chainBytes call.chain).length < sizeTWords := by
    unfold Refused at hno
    rw [not_or] at hno
    by_cases hpos : 0 < maxSize
    · have := fun h => hno.2 ⟨hpos, h⟩
      omega
    · refine not_le.1 fun hbig => hcounted ⟨Nat.eq_zero_of_not_pos hpos, ?_, hbig⟩
      exact Bool.eq_false_of_not_eq_true hno.1
  rw [scan_counted call.fits (by decide) hno, Nat.zero_add, Nat.zero_add, Bool.false_or,
    Nat.mod_eq_of_lt hsmall]

/-- A call without bytes leaves everything. -/
theorem capture_nothing (hmax : maxSize < sizeTWords)
    (hno : ¬Refused maxSize ctx.bodyLen call.chain) (hcounted : ¬Uncounted maxSize call.chain)
    (hnil : chainBytes call.chain = []) :
    bodyFilterCapture maxSize ctx pool call = ⟨ctx, pool, .ok, marks call.chain, none⟩ := by
  unfold bodyFilterCapture
  rw [scan_call hmax hno hcounted]
  exact if_pos ((chainCount_eq_zero call.fits).2 hnil)

/-- A call that gets no block leaves everything as well, and the capture on. -/
theorem capture_fails (hmax : maxSize < sizeTWords)
    (hno : ¬Refused maxSize ctx.bodyLen call.chain) (hcounted : ¬Uncounted maxSize call.chain)
    (hfails : Fails pool call) :
    bodyFilterCapture maxSize ctx pool call = ⟨ctx, pool, .error, marks call.chain, none⟩ := by
  obtain ⟨hbytes, hgrant⟩ := hfails
  unfold bodyFilterCapture
  rw [scan_call hmax hno hcounted]
  dsimp only
  rw [if_neg fun hc => hbytes ((chainCount_eq_zero call.fits).1 hc), blockSize_eq call.count_le]
  by_cases hsize : blockBytes (chainBytes call.chain).length (chainCount call.chain) ≤ sizeTMax
  · rw [if_pos hsize]
    dsimp only
    unfold pnalloc
    rw [if_neg fun hroom => hgrant ⟨hsize, hroom⟩]
  · rw [if_neg hsize]

/-- The pool with the block of a call. -/
def grantedPool (pool : Pool) (call : Call) : Pool :=
  { pool with
    blocks := pool.blocks + 1
    used := pool.used + blockBytes (chainBytes call.chain).length (chainCount call.chain) }

/-- The copying pass of a call that gets its block. -/
def grantedCopy (ctx : Ctx) (pool : Pool) (call : Call) : Copying :=
  copyPass pool.blocks ctx (grantedPool pool call) call.chain

theorem capture_eq (hmax : maxSize < sizeTWords) (hno : ¬Refused maxSize ctx.bodyLen call.chain)
    (hcounted : ¬Uncounted maxSize call.chain) (hbytes : chainBytes call.chain ≠ [])
    (hgrant : Granted pool call) :
    bodyFilterCapture maxSize ctx pool call =
      { ctx := { (grantedCopy ctx pool call).ctx with
          bodyLen := ((grantedCopy ctx pool call).ctx.bodyLen +
            (chainBytes call.chain).length) % sizeTWords }
        pool := (grantedCopy ctx pool call).pool
        rc := .ok
        last := marks call.chain
        block := some
          { base := call.base
            size := blockBytes (chainBytes call.chain).length (chainCount call.chain)
            total := (chainBytes call.chain).length
            nbufs := chainCount call.chain
            cursor := (grantedCopy ctx pool call).cursor } } := by
  obtain ⟨hsize, hroom⟩ := hgrant
  unfold bodyFilterCapture
  rw [scan_call hmax hno hcounted]
  dsimp only
  rw [if_neg fun hc => hbytes ((chainCount_eq_zero call.fits).1 hc), blockSize_eq call.count_le,
    if_pos hsize]
  dsimp only
  unfold pnalloc
  rw [if_pos hroom]
  rfl

/-- **A call that gets its block** puts its bytes behind the body. -/
theorem capture_granted (hmax : maxSize < sizeTWords) (h : Holding maxSize ctx pool data)
    (hno : ¬Refused maxSize ctx.bodyLen call.chain) (hcounted : ¬Uncounted maxSize call.chain)
    (hbytes : chainBytes call.chain ≠ []) (hgrant : Granted pool call) :
    ∃ r u, bodyFilterCapture maxSize ctx pool call = r ∧ r.rc = .ok ∧
      r.last = marks call.chain ∧ r.block = some u ∧ Filled u ∧
      u.size = blockBytes (chainBytes call.chain).length (chainCount call.chain) ∧
      Holding maxSize r.ctx r.pool (data ++ chainBytes call.chain) ∧
      r.ctx.sieServing = ctx.sieServing ∧ r.ctx.captured = ctx.captured ∧
      r.ctx.served = ctx.served := by
  obtain ⟨ids, hkept⟩ := h.kept
  have hstart : CopyOk pool.blocks ⟨ctx, grantedPool pool call, ⟨ctx.bodyLast, 0, 0⟩⟩ data :=
    ⟨⟨ids, hkept.list, hkept.older, hkept.own, hkept.filled, hkept.count, hkept.data⟩, rfl⟩
  obtain ⟨⟨⟨ids', hkept'⟩, -⟩, hrest, hp, hi⟩ := copyPass_ok hstart call.fits
  have hblocks : (grantedCopy ctx pool call).pool.blocks = pool.blocks + 1 := hrest.blocks
  have hused : (grantedCopy ctx pool call).pool.used = pool.used +
      blockBytes (chainBytes call.chain).length (chainCount call.chain) := hrest.used
  have hlen : (grantedCopy ctx pool call).ctx.bodyLen = ctx.bodyLen := hrest.bodyLen
  -- what is captured is in the blocks of the pool, so its length does not wrap
  have hsum : ((grantedCopy ctx pool call).ctx.bodyLen + (chainBytes call.chain).length) %
      sizeTWords = ctx.bodyLen + (chainBytes call.chain).length := by
    rw [hlen]
    refine Nat.mod_eq_of_lt ?_
    have hfit := hgrant.2.2
    have hcaptured := h.used
    unfold blockBytes ngxAlignment at hfit
    omega
  refine ⟨_, _, capture_eq hmax hno hcounted hbytes hgrant, rfl, rfl, rfl,
    Filled.of_size (hp.trans (Nat.zero_add _)) (hi.trans (Nat.zero_add _)), rfl, ?_,
    hrest.sieServing, hrest.captured, hrest.served⟩
  rw [hsum]
  refine ⟨⟨ids', ⟨hkept'.list, fun id hid => ?_, hkept'.own, fun id hid hb => ?_, hkept'.count,
    hkept'.data⟩⟩, ?_, ?_, fun hpos => ?_⟩
  · show id.1 < (grantedCopy ctx pool call).pool.blocks ∨ _
    rw [hblocks]
    rcases hkept'.older id hid with hlt | ⟨heq, -⟩
    · exact Or.inl (Nat.lt_succ_of_lt hlt)
    · exact Or.inl (heq ▸ Nat.lt_succ_self _)
  · -- no link is of a block to come
    have hb' : id.1 = pool.blocks + 1 := hb.trans hblocks
    rcases hkept'.older id hid with hlt | ⟨heq, -⟩
    · omega
    · omega
  · rw [List.length_append, h.bodyLen]
  · show ctx.bodyLen + (chainBytes call.chain).length ≤ (grantedCopy ctx pool call).pool.used
    rw [hused]
    have hcaptured := h.used
    unfold blockBytes
    omega
  · unfold Refused at hno
    rw [not_or] at hno
    exact not_lt.1 fun hover => hno.2 ⟨hpos, hover⟩

/-- **A call that meets no hole** goes through, with or without bytes. -/
theorem capture_ok (hmax : maxSize < sizeTWords) (h : Holding maxSize ctx pool data)
    (hno : ¬Meets maxSize ctx.bodyLen pool call) (hcounted : ¬Uncounted maxSize call.chain) :
    ∃ r, bodyFilterCapture maxSize ctx pool call = r ∧ r.rc = .ok ∧ r.last = marks call.chain ∧
      (∀ u, r.block = some u → Filled u ∧
        u.size = blockBytes (chainBytes call.chain).length (chainCount call.chain)) ∧
      Holding maxSize r.ctx r.pool (data ++ chainBytes call.chain) ∧
      r.ctx.sieServing = ctx.sieServing ∧ r.ctx.captured = ctx.captured ∧
      r.ctx.served = ctx.served := by
  obtain ⟨hkeep, hgets⟩ := not_or.1 hno
  by_cases hnil : chainBytes call.chain = []
  · refine ⟨_, capture_nothing hmax hkeep hcounted hnil, rfl, rfl, nofun, ?_, rfl, rfl, rfl⟩
    rw [hnil, List.append_nil]
    exact h
  · have hgrant : Granted pool call := Decidable.not_not.1 fun hg => hgets ⟨hnil, hg⟩
    obtain ⟨r, u, hr, hrc, hlast, hblock, hfilled, hsize, hrest⟩ :=
      capture_granted hmax h hkeep hcounted hnil hgrant
    refine ⟨r, hr, hrc, hlast, fun u' hu' => ?_, hrest⟩
    obtain rfl := Option.some.inj (hblock.symm.trans hu')
    exact ⟨hfilled, hsize⟩

end Capture

/-! ## The body without its links -/

/-- The counting pass on what is in memory. -/
theorem captureScan_eq {maxSize bodyLen : ℕ} {bufs : List Bytes} {total : ℕ}
    (hlen : 0 < maxSize → bodyLen + total ≤ maxSize) :
    captureScan maxSize bodyLen bufs total =
      if 0 < maxSize ∧ maxSize < bodyLen + total + bufs.flatten.length then none
      else some (total + bufs.flatten.length) := by
  induction bufs generalizing total with
  | nil =>
    rw [captureScan, List.flatten_nil, List.length_nil, Nat.add_zero, Nat.add_zero, if_neg]
    exact fun hover => Nat.not_le.2 hover.2 (hlen hover.1)
  | cons b bufs ih =>
    rw [captureScan, List.flatten_cons, List.length_append]
    by_cases hb : b.length > 0
    · rw [if_pos hb]
      by_cases hover : maxSize > 0 ∧ (total > maxSize ∨ b.length > maxSize - total ∨
          bodyLen > maxSize - total - b.length)
      · rw [if_pos hover, if_pos ⟨hover.1, by have := hlen hover.1; omega⟩]
      · rw [if_neg hover, ih fun hpos => ?_, Nat.add_assoc bodyLen, Nat.add_assoc bodyLen,
          Nat.add_assoc total]
        have := fun h => hover ⟨hpos, h⟩
        have := hlen hpos
        omega
    · rw [if_neg hb, ih hlen, Nat.eq_zero_of_not_pos hb, Nat.zero_add]

theorem flatten_nonempty (bufs : List Bytes) :
    (bufs.filter fun buf => buf.length > 0).flatten = bufs.flatten := by
  induction bufs with
  | nil => rfl
  | cons b bufs ih =>
    by_cases hb : b.length > 0
    · rw [List.filter_cons_of_pos (by simpa using hb), List.flatten_cons, List.flatten_cons, ih]
    · have hnil : b = [] := List.eq_nil_of_length_eq_zero (Nat.eq_zero_of_not_pos hb)
      rw [List.filter_cons_of_neg (by simpa using hb), List.flatten_cons, hnil, List.nil_append, ih]

/-- The capture of pieces ends as its counting pass does. -/
theorem bodyFilterCapture_pieces (maxSize : ℕ) (b : CapturedBody) (bufs : List Bytes) :
    (Http.bodyFilterCapture maxSize b bufs = none ↔ captureScan maxSize b.len bufs 0 = none) ∧
      ∀ b', Http.bodyFilterCapture maxSize b bufs = some b' →
        b'.chain.flatten = b.chain.flatten ++ bufs.flatten := by
  unfold Http.bodyFilterCapture
  split
  next h => exact ⟨iff_of_true rfl h, nofun⟩
  next total h =>
    refine ⟨iff_of_false nofun fun hnone => ?_, fun b' hb' => ?_⟩
    · rw [h] at hnone
      cases hnone
    · obtain rfl := Option.some.inj hb'
      rw [List.flatten_append, flatten_nonempty]

/-- **The capture on a list of pieces**, as the other modules have it, is this one: it refuses
the same calls, and goes on with the same bytes. -/
theorem capture_refines {maxSize : ℕ} (hmax : maxSize < sizeTWords) {ctx : Ctx} {pool : Pool}
    {b : CapturedBody} (h : Holding maxSize ctx pool b.chain.flatten) {call : Call}
    (hmemory : call.chain.any fileBacked = false) (hcounted : ¬Uncounted maxSize call.chain)
    (hgets : ¬Fails pool call) :
    (Http.bodyFilterCapture maxSize b (call.chain.map memoryBytes) = none →
      bodyFilterCapture maxSize ctx pool call = ⟨abandon ctx, pool, .declined, false, none⟩) ∧
    ∀ b', Http.bodyFilterCapture maxSize b (call.chain.map memoryBytes) = some b' →
      ∃ r, bodyFilterCapture maxSize ctx pool call = r ∧ r.rc = .ok ∧
        Holding maxSize r.ctx r.pool b'.chain.flatten := by
  have hlen : b.len = ctx.bodyLen := b.counted.trans h.bodyLen.symm
  have hbytes : (call.chain.map memoryBytes).flatten = chainBytes call.chain := rfl
  obtain ⟨hnone, hsome⟩ := bodyFilterCapture_pieces maxSize b (call.chain.map memoryBytes)
  rw [hlen, captureScan_eq h.limit, hbytes] at hnone
  rw [hbytes] at hsome
  by_cases hover : 0 < maxSize ∧ maxSize < ctx.bodyLen + (chainBytes call.chain).length
  · have hrefuses := hnone.2 (if_pos hover)
    refine ⟨fun _ => capture_refused hmax h (Or.inr hover), fun b' hb' => ?_⟩
    rw [hrefuses] at hb'
    cases hb'
  · have hno : ¬Meets maxSize ctx.bodyLen pool call := by
      rintro ((hfile | hmore) | hfails)
      · rw [hmemory] at hfile
        cases hfile
      · exact hover hmore
      · exact hgets hfails
    refine ⟨fun hrefuses => ?_, fun b' hb' => ?_⟩
    · have habsurd := (if_neg hover).symm.trans (hnone.1 hrefuses)
      cases habsurd
    · obtain ⟨r, hr, hrc, -, -, hheld, -⟩ := capture_ok hmax h hno hcounted
      refine ⟨r, hr, hrc, ?_⟩
      rw [hsome b' hb']
      exact hheld

/-! ## The calls of a response -/

/-- A response being captured, and what its calls have been so far: all their bytes in memory,
and whether one of them met a hole. -/
structure Response where
  ctx : Ctx
  pool : Pool
  passed : Bytes
  hole : Bool

namespace Response

/-- A capture that begins, in any pool. -/
def start (pool : Pool) : Response :=
  ⟨⟨false, true, false, none, none, 0⟩, pool, [], false⟩

def filter (maxSize : ℕ) (s : Response) (call : Call) : Filtered :=
  bodyFilter maxSize s.ctx s.pool call

/-- A call. -/
def step (maxSize : ℕ) (s : Response) (call : Call) : Response where
  ctx := (s.filter maxSize call).ctx
  pool := (s.filter maxSize call).pool
  passed := s.passed ++ chainBytes call.chain
  hole := s.hole || decide (Meets maxSize s.passed.length s.pool call)

/-- **A call is accounted for.**  As long as no call has met a hole, the captured chain is what
has been passed, and `body_len` its length, within the limit; the counting pass counts right,
and the block of the call is of the right size and filled up; and what is stored is stored by a
call that ends the response, is all that has been passed, and has no hole. -/
structure Accounted (maxSize : ℕ) (s : Response) (call : Call) : Prop where
  body : (s.step maxSize call).hole = false →
    capturing (s.step maxSize call).ctx = true ∧
    bodyBytes (s.step maxSize call).ctx (s.step maxSize call).pool =
      (s.step maxSize call).passed ∧
    (s.step maxSize call).ctx.bodyLen = (s.step maxSize call).passed.length ∧
    (0 < maxSize → (s.step maxSize call).ctx.bodyLen ≤ maxSize)
  counted : capturing s.ctx = true → ∀ total nbufs last,
    scan maxSize s.ctx.bodyLen call.chain 0 0 false = .counted total nbufs last →
    total = (chainBytes call.chain).length ∧ nbufs = chainCount call.chain
  block : ∀ u, (s.filter maxSize call).block = some u → Filled u ∧
    u.size = blockBytes (chainBytes call.chain).length (chainCount call.chain)
  hole : (s.step maxSize call).hole = true → (s.filter maxSize call).stored = none
  stored : ∀ data, (s.filter maxSize call).stored = some data →
    marks call.chain = true ∧ data = (s.step maxSize call).passed

/-- The call cannot be accounted for: it brings more than can be counted, or an earlier one met
a hole, the capture is still on, and this one ends the response and meets none. -/
def Unaccountable (maxSize : ℕ) (s : Response) (call : Call) : Prop :=
  capturing s.ctx = true ∧ (Uncounted maxSize call.chain ∨
    s.hole = true ∧ marks call.chain = true ∧ ¬Meets maxSize s.ctx.bodyLen s.pool call)

/-- What holds between the calls. -/
structure Inv (maxSize : ℕ) (s : Response) : Prop where
  sieServing : s.ctx.sieServing = false
  served : s.ctx.served = false
  on : s.hole = false → s.ctx.captured = true
  holds : s.ctx.captured = true → ∃ data, Holding maxSize s.ctx s.pool data ∧
    (s.hole = false → data = s.passed)

theorem Inv.start (maxSize : ℕ) (pool : Pool) : Inv maxSize (start pool) := by
  refine ⟨rfl, rfl, fun _ => rfl, fun _ => ⟨[], ⟨⟨[], ?_⟩, rfl, Nat.zero_le _, fun _ => ?_⟩,
    fun _ => rfl⟩⟩
  · exact ⟨TailList.Holds.empty _, nofun, nofun, nofun, Nat.zero_le _, rfl⟩
  · exact Nat.zero_le _

theorem Inv.capturing_eq {maxSize : ℕ} {s : Response} (h : Inv maxSize s) :
    capturing s.ctx = s.ctx.captured := by
  unfold capturing
  rw [h.sieServing, h.served]
  exact Bool.and_true _

section Step

variable {maxSize : ℕ} {s : Response} {call : Call}

/-- A capture that is off stays off. -/
theorem filter_off (h : Inv maxSize s) (hoff : s.ctx.captured = false) (call : Call) :
    s.filter maxSize call = ⟨s.ctx, s.pool, false, none, none⟩ := by
  unfold filter bodyFilter
  rw [h.sieServing, hoff]
  rfl

/-- The filter with the capture on. -/
theorem filter_on (h : Inv maxSize s) (hon : s.ctx.captured = true) {r : Captured}
    (hr : bodyFilterCapture maxSize s.ctx s.pool call = r) :
    s.filter maxSize call = match r.rc with
      | .error => ⟨r.ctx, r.pool, true, none, r.block⟩
      | .declined => ⟨r.ctx, r.pool, false, none, r.block⟩
      | .ok => ⟨r.ctx, r.pool, false,
          if r.last && decide (maxSize = 0 ∨ r.ctx.bodyLen ≤ maxSize) then
            some (bodyBytes r.ctx r.pool) else none, r.block⟩ := by
  unfold filter bodyFilter
  rw [h.sieServing, hon, h.served, ← hr]
  rfl

/-- A call that goes through stores what is captured if it ends the response. -/
theorem filter_ok (hmax : maxSize < sizeTWords) (h : Inv maxSize s) (hon : s.ctx.captured = true)
    {data : Bytes} (hdata : Holding maxSize s.ctx s.pool data)
    (hno : ¬Meets maxSize s.ctx.bodyLen s.pool call) (hcounted : ¬Uncounted maxSize call.chain) :
    ∃ f, s.filter maxSize call = f ∧
      f.stored = (if marks call.chain then some (data ++ chainBytes call.chain) else none) ∧
      (∀ u, f.block = some u → Filled u ∧
        u.size = blockBytes (chainBytes call.chain).length (chainCount call.chain)) ∧
      Holding maxSize f.ctx f.pool (data ++ chainBytes call.chain) ∧
      f.ctx.sieServing = false ∧ f.ctx.captured = true ∧ f.ctx.served = false := by
  obtain ⟨r, hr, hrc, hlast, hblock, hheld, hsie, hcaptured, hserved⟩ :=
    capture_ok hmax hdata hno hcounted
  have hfilter := filter_on h hon hr
  rw [hrc] at hfilter
  refine ⟨_, hfilter, ?_, hblock, hheld, hsie.trans h.sieServing, hcaptured.trans hon,
    hserved.trans h.served⟩
  obtain ⟨ids, hkept⟩ := hheld.kept
  have hlimit : maxSize = 0 ∨ r.ctx.bodyLen ≤ maxSize := by
    rcases Nat.eq_zero_or_pos maxSize with hzero | hpos
    · exact Or.inl hzero
    · exact Or.inr (hheld.limit hpos)
  show (if r.last && decide (maxSize = 0 ∨ r.ctx.bodyLen ≤ maxSize) then _ else none) = _
  rw [decide_eq_true hlimit, Bool.and_true, hlast, hkept.bodyBytes]

/-- A call meets a hole by what has been captured as by what has been passed. -/
theorem meets_iff {data : Bytes} (hdata : Holding maxSize s.ctx s.pool data)
    (hall : s.hole = false → data = s.passed) (hwhole : s.hole = false) (call : Call) :
    Meets maxSize s.passed.length s.pool call ↔ Meets maxSize s.ctx.bodyLen s.pool call := by
  rw [hdata.bodyLen, hall hwhole]

/-- The counting pass, for a chain that can be counted. -/
theorem counted_call (hmax : maxSize < sizeTWords) {data : Bytes}
    (hdata : Holding maxSize s.ctx s.pool data) (hcounted : ¬Uncounted maxSize call.chain)
    {total nbufs : ℕ} {last : Bool} (hscan : scan maxSize s.ctx.bodyLen call.chain 0 0 false =
      .counted total nbufs last) :
    total = (chainBytes call.chain).length ∧ nbufs = chainCount call.chain := by
  by_cases hrefused : Refused maxSize s.ctx.bodyLen call.chain
  · rcases @scan_refused maxSize s.ctx.bodyLen hmax call.chain call.fits 0 hdata.limit hrefused 0
      false with hr | hr
    · rw [hr] at hscan
      cases hscan
    · rw [hr] at hscan
      cases hscan
  · rw [scan_call hmax hrefused hcounted] at hscan
    obtain ⟨rfl, rfl, -⟩ := Scan.counted.inj hscan
    exact ⟨rfl, rfl⟩

/-- A call after which there is a hole, and that stores nothing. -/
theorem Accounted.of_hole (hhole : (s.step maxSize call).hole = true)
    (hstored : (s.filter maxSize call).stored = none)
    (hblock : (s.filter maxSize call).block = none)
    (hcounted : capturing s.ctx = true → ∀ total nbufs last,
      scan maxSize s.ctx.bodyLen call.chain 0 0 false = .counted total nbufs last →
      total = (chainBytes call.chain).length ∧ nbufs = chainCount call.chain) :
    Accounted maxSize s call where
  body hwhole := by
    rw [hhole] at hwhole
    cases hwhole
  counted := hcounted
  block u hu := by
    rw [hblock] at hu
    cases hu
  hole _ := hstored
  stored data hd := by
    rw [hstored] at hd
    cases hd

/-- The invariant, when there is a hole. -/
theorem Inv.of_hole {s' : Response} (hhole : s'.hole = true) (hsie : s'.ctx.sieServing = false)
    (hserved : s'.ctx.served = false)
    (hholds : s'.ctx.captured = true → ∃ data, Holding maxSize s'.ctx s'.pool data) :
    Inv maxSize s' := by
  refine ⟨hsie, hserved, fun hwhole => ?_, fun hon => ?_⟩
  · rw [hhole] at hwhole
    cases hwhole
  · obtain ⟨data, hdata⟩ := hholds hon
    refine ⟨data, hdata, fun hwhole => ?_⟩
    rw [hhole] at hwhole
    cases hwhole

/-- There is a hole after a call that meets one, or if there was one. -/
theorem hole_step {data : Bytes} (hdata : Holding maxSize s.ctx s.pool data)
    (hall : s.hole = false → data = s.passed) :
    (s.step maxSize call).hole = (s.hole || decide (Meets maxSize s.ctx.bodyLen s.pool call)) := by
  show (s.hole || decide (Meets maxSize s.passed.length s.pool call)) = _
  cases hhole : s.hole with
  | true => rw [Bool.true_or, Bool.true_or]
  | false =>
    rw [Bool.false_or, Bool.false_or]
    exact decide_eq_decide.2 (meets_iff hdata hall hhole call)

/-- **One call** that can be accounted for is, and keeps the invariant. -/
theorem Inv.step (hmax : maxSize < sizeTWords) (h : Inv maxSize s)
    (hcall : ¬Unaccountable maxSize s call) :
    Accounted maxSize s call ∧ Inv maxSize (s.step maxSize call) := by
  cases hon : s.ctx.captured with
  | false =>
    -- the capture has been abandoned
    have hfilter := filter_off h hon call
    have hhole : s.hole = true := by
      refine Bool.eq_true_of_not_eq_false fun hwhole => ?_
      rw [h.on hwhole] at hon
      cases hon
    have hhole' : (s.step maxSize call).hole = true := by
      show (s.hole || _) = true
      rw [hhole, Bool.true_or]
    have hctx : (s.step maxSize call).ctx = s.ctx := congrArg Filtered.ctx hfilter
    refine ⟨.of_hole hhole' (by rw [hfilter]) (by rw [hfilter]) fun hc => ?_,
      .of_hole hhole' (by rw [hctx]; exact h.sieServing) (by rw [hctx]; exact h.served)
        fun hc => ?_⟩
    · rw [h.capturing_eq, hon] at hc
      cases hc
    · rw [hctx, hon] at hc
      cases hc
  | true =>
    obtain ⟨data, hdata, hall⟩ := h.holds hon
    obtain ⟨hcounted, hend⟩ := not_or.1 fun hor => hcall ⟨h.capturing_eq.trans hon, hor⟩
    have hscan : capturing s.ctx = true → ∀ total nbufs last,
        scan maxSize s.ctx.bodyLen call.chain 0 0 false = .counted total nbufs last →
        total = (chainBytes call.chain).length ∧ nbufs = chainCount call.chain :=
      fun _ _ _ _ hs => counted_call hmax hdata hcounted hs
    have hhole := @hole_step maxSize s call data hdata hall
    by_cases hmeets : Meets maxSize s.ctx.bodyLen s.pool call
    · rw [decide_eq_true hmeets, Bool.or_true] at hhole
      by_cases hrefused : Refused maxSize s.ctx.bodyLen call.chain
      · -- abandoned now
        have hfilter := filter_on h hon (capture_refused hmax hdata hrefused)
        have hctx : (s.step maxSize call).ctx = abandon s.ctx := congrArg Filtered.ctx hfilter
        refine ⟨.of_hole hhole (by rw [hfilter]) (by rw [hfilter]) hscan,
          .of_hole hhole (by rw [hctx]; exact h.sieServing) (by rw [hctx]; exact h.served)
            fun hc => ?_⟩
        rw [hctx] at hc
        cases hc
      · -- no block, and the capture is still on
        have hfilter := filter_on h hon
          (capture_fails hmax hrefused hcounted (hmeets.resolve_left hrefused))
        have hctx : (s.step maxSize call).ctx = s.ctx := congrArg Filtered.ctx hfilter
        have hpool : (s.step maxSize call).pool = s.pool := congrArg Filtered.pool hfilter
        refine ⟨.of_hole hhole (by rw [hfilter]) (by rw [hfilter]) hscan,
          .of_hole hhole (by rw [hctx]; exact h.sieServing) (by rw [hctx]; exact h.served)
            fun _ => ⟨data, ?_⟩⟩
        rw [hctx, hpool]
        exact hdata
    · rw [decide_eq_false hmeets, Bool.or_false] at hhole
      obtain ⟨f, hf, hstored, hblock, hheld, hsie, hcaptured, hserved⟩ :=
        filter_ok hmax h hon hdata hmeets hcounted
      have hpassed : s.hole = false → data ++ chainBytes call.chain =
          (s.step maxSize call).passed := fun hwhole => by rw [hall hwhole]; rfl
      have hctx : (s.step maxSize call).ctx = f.ctx := congrArg Filtered.ctx hf
      have hpool : (s.step maxSize call).pool = f.pool := congrArg Filtered.pool hf
      -- a call that ends the response and meets no hole comes after none
      have hclean : marks call.chain = true → s.hole = false := fun hmarks =>
        Bool.eq_false_of_not_eq_true fun hold => hend ⟨hold, hmarks, hmeets⟩
      refine ⟨⟨fun hwhole => ?_, hscan, ?_, fun hbad => ?_, fun d hd => ?_⟩, ?_⟩
      · rw [hhole] at hwhole
        obtain ⟨ids, hkept⟩ := hheld.kept
        rw [hctx, hpool, hkept.bodyBytes, hheld.bodyLen, hpassed hwhole]
        refine ⟨?_, rfl, rfl, fun hpos => ?_⟩
        · unfold capturing
          rw [hsie, hcaptured, hserved]
          rfl
        · have hlimit := hheld.limit hpos
          rwa [hheld.bodyLen, hpassed hwhole] at hlimit
      · rw [hf]
        exact hblock
      · rw [hf, hstored]
        rw [hhole] at hbad
        refine if_neg fun hmarks => ?_
        rw [hclean hmarks] at hbad
        cases hbad
      · rw [hf, hstored] at hd
        split_ifs at hd with hmarks
        obtain rfl := Option.some.inj hd
        exact ⟨hmarks, hpassed (hclean hmarks)⟩
      · refine ⟨by rw [hctx]; exact hsie, by rw [hctx]; exact hserved,
          fun _ => by rw [hctx]; exact hcaptured, fun _ =>
            ⟨data ++ chainBytes call.chain, ?_, fun hwhole => ?_⟩⟩
        · rw [hctx, hpool]
          exact hheld
        · exact hpassed (hhole ▸ hwhole)

/-- **A call that cannot be accounted for** is not. -/
theorem Inv.not_accounted (hmax : maxSize < sizeTWords) (h : Inv maxSize s)
    (hbad : Unaccountable maxSize s call) : ¬Accounted maxSize s call := by
  intro hacc
  obtain ⟨hcapturing, hbad⟩ := hbad
  have hon : s.ctx.captured = true := h.capturing_eq.symm.trans hcapturing
  obtain ⟨data, hdata, -⟩ := h.holds hon
  by_cases huncounted : Uncounted maxSize call.chain
  · -- the sum has wrapped
    obtain ⟨hzero, hmemory, hbig⟩ := huncounted
    have hno : ¬Refused maxSize (s.ctx.bodyLen + 0) call.chain := by
      rintro (hfile | ⟨hpos, -⟩)
      · rw [hmemory] at hfile
        cases hfile
      · exact absurd hzero (Nat.pos_iff_ne_zero.1 hpos)
    have hscan := scan_counted call.fits (by decide) hno 0 false
    obtain ⟨htotal, -⟩ := hacc.counted hcapturing _ _ _ hscan
    rw [Nat.zero_add] at htotal
    have hlt := Nat.mod_lt (chainBytes call.chain).length (y := sizeTWords) (by decide)
    omega
  · obtain ⟨hhole, hmarks, hmeets⟩ := hbad.resolve_left huncounted
    obtain ⟨f, hf, hstored, -⟩ := filter_ok hmax h hon hdata hmeets huncounted
    have hnone := hacc.hole (by
      show (s.hole || _) = true
      rw [hhole, Bool.true_or])
    rw [hf, hstored, if_pos hmarks] at hnone
    cases hnone

end Step

/-- A pool with zeros in it. -/
def zeroPool : Pool := ⟨fun _ _ => 0, fun _ => ⟨0, 0, 0⟩, fun _ => none, 0, 0, 0⟩

/-- A buffer with one byte, in memory. -/
def byteBuf (c : UInt8) (lastBuf : Bool) : ChainBuf where
  block := [c]
  pos := 0
  last := 1
  memory := true
  file := []
  filePos := 0
  fileLast := 0
  inFile := false
  sync := false
  lastBuf := lastBuf
  lastInChain := false

/-- A call with that buffer. -/
def byteCall (c : UInt8) (lastBuf room : Bool) : Call where
  chain := [byteBuf c lastBuf]
  room := room
  base := 0
  inMemory := show 1 * (sizeofBuf + sizeofChain) ≤ sizeTMax by decide
  bounds b hb _ := by
    obtain rfl := List.mem_singleton.1 hb
    exact ⟨Nat.zero_le 1, Nat.le_refl 1, show 1 < sizeTWords by decide⟩

/-- `"a"` without memory for it, and then `"b"`, which ends the response. -/
def lostPiece : List Call := [byteCall 97 false false, byteCall 98 true true]

end Response

end BodyCapture
end Http
end CacheTurbo
