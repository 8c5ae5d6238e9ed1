/-
# Pipelined commands

`ngx_http_cache_turbo_redis_cmd_many` cuts a list of keys into commands of at most 256,
once to size its buffer and to count the replies, and once more to fill it;
`ngx_http_cache_turbo_redis_tag_add_impl` sends three commands for a tag.  The replies
are counted by `ngx_http_cache_turbo_redis_read_drain` (`drainEvent`), and the verdict is
handed to the completion by `op_done`.

`readCommands` is the other end: what a server reads of the buffer.  The lengths that it
reads are decimal numbers of any size.
-/

import CacheTurbo.L2.Elements
import CacheTurbo.L2.TagPurge
import Mathlib.Algebra.Order.Ring.Int

namespace CacheTurbo
namespace L2
namespace Pipeline

open Bytes Incremental
open TagPurge (delChunk)

/-! ## The encoder -/

/-- `ngx_http_cache_turbo_redis_encode_len`. -/
def encodeLen (argv : List Bytes) : ℕ :=
  (argv.map fun a => 1 + 20 + 2 + a.length + 2).foldl (· + ·) (1 + 20 + 2)

/-- `ngx_http_cache_turbo_redis_encode_into`, behind the bytes `buf`. -/
def encodeInto (buf : Bytes) (argv : List Bytes) : Bytes := buf ++ redisEncode argv

/-- A list of strings of the machine: its length and theirs are a `size_t`. -/
def Sized (argv : List Bytes) : Prop := argv.length < 2 ^ 64 ∧ ∀ a ∈ argv, a.length < 2 ^ 64

theorem foldl_add (ns : List ℕ) (n : ℕ) : ns.foldl (· + ·) n = n + ns.sum := by
  induction ns generalizing n with
  | nil => rfl
  | cons m ns ih => rw [List.foldl_cons, ih, List.sum_cons, Nat.add_assoc]

/-- **The sizing formula bounds what is written.** -/
theorem redisEncode_length_le {argv : List Bytes} (hcount : argv.length < 10 ^ 20)
    (hargs : ∀ a ∈ argv, a.length < 2 ^ 64) : (redisEncode argv).length ≤ encodeLen argv := by
  have hcrlf : crlf.length = 2 := rfl
  have hdigits : (decimal argv.length).length ≤ 20 := decimal_length_le_of_lt (by decide) hcount
  have hbody : (argv.flatMap fun a => 36 :: decimal a.length ++ crlf ++ a ++ crlf).length ≤
      (argv.map fun a => 1 + 20 + 2 + a.length + 2).sum := by
    clear hcount hdigits
    induction argv with
    | nil => exact Nat.le_refl 0
    | cons a argv ih =>
      obtain ⟨ha, hargs⟩ := List.forall_mem_cons.1 hargs
      have hlen : (decimal a.length).length ≤ 20 :=
        decimal_length_le_of_lt (by decide) (lt_trans ha (by decide))
      have hrest := ih hargs
      rw [List.flatMap_cons, List.length_append, List.map_cons, List.sum_cons]
      simp only [List.length_cons, List.length_append, hcrlf] at hrest ⊢
      omega
  rw [redisEncode, encodeLen, foldl_add]
  simp only [List.length_cons, List.length_append, hcrlf] at hbody ⊢
  omega

/-! ## The server's reader -/

/-- A decimal number and the end of its line. -/
def readLength (s : Bytes) : Option (ℕ × Bytes) :=
  match lineEnd s with
  | none => none
  | some (line, rest) =>
      if line ≠ [] ∧ line.all (fun c => 48 ≤ c && c ≤ 57) then some (decimalValue line 0, rest)
      else none

/-- A bulk string. -/
def readArg : Bytes → Option (Bytes × Bytes)
  | [] => none
  | c :: s =>
      if c ≠ 36 then none
      else
        match readLength s with
        | none => none
        | some (n, rest) =>
            if (rest.drop n).take 2 = crlf then some (rest.take n, rest.drop (n + 2)) else none

/-- `n` bulk strings. -/
def readArgs : ℕ → Bytes → Option (List Bytes × Bytes)
  | 0, s => some ([], s)
  | n + 1, s =>
      match readArg s with
      | none => none
      | some (a, rest) => (readArgs n rest).map fun r => (a :: r.1, r.2)

/-- A command: an array of bulk strings. -/
def readCommand : Bytes → Option (List Bytes × Bytes)
  | [] => none
  | c :: s =>
      if c ≠ 42 then none
      else
        match readLength s with
        | none => none
        | some (n, rest) => readArgs n rest

/-- The commands up to the end of the buffer, at most `fuel` of them. -/
def readCommands : ℕ → Bytes → Option (List (List Bytes))
  | _, [] => some []
  | 0, _ :: _ => none
  | fuel + 1, c :: s =>
      match readCommand (c :: s) with
      | none => none
      | some (argv, rest) => (readCommands fuel rest).map (argv :: ·)

/-- What a server reads of a buffer. -/
def decodeCommands (buf : Bytes) : Option (List (List Bytes)) := readCommands buf.length buf

theorem readLength_decimal (n : ℕ) (rest : Bytes) :
    readLength (decimal n ++ crlf ++ rest) = some (n, rest) := by
  have hdec := isDecimal_decimal n
  have hdigits : (decimal n).all (fun c => 48 ≤ c && c ≤ 57) = true := by
    refine List.all_eq_true.2 fun c hc => ?_
    have hc := hdec.digits c hc
    simp [hc.1, hc.2]
  unfold readLength
  rw [append_crlf, lineEnd_eq_some.2 ⟨rfl, decimal_not_cr n⟩]
  dsimp only
  rw [if_pos ⟨hdec.nonempty, hdigits⟩, hdec.value]

theorem readArg_encoded (a rest : Bytes) :
    readArg (36 :: decimal a.length ++ crlf ++ a ++ crlf ++ rest) = some (a, rest) := by
  have hshape : 36 :: decimal a.length ++ crlf ++ a ++ crlf ++ rest =
      36 :: (decimal a.length ++ crlf ++ (a ++ (crlf ++ rest))) := by
    simp only [List.append_assoc, List.cons_append]
  have htake : (crlf ++ rest).take 2 = crlf := rfl
  rw [hshape, readArg, if_neg (not_not_intro rfl), readLength_decimal]
  dsimp only
  rw [List.drop_left, htake, if_pos rfl, List.take_left, ← List.drop_drop, List.drop_left]
  rfl

theorem readArgs_encoded (argv : List Bytes) (rest : Bytes) :
    readArgs argv.length ((argv.flatMap fun a => 36 :: decimal a.length ++ crlf ++ a ++ crlf) ++ rest) =
      some (argv, rest) := by
  induction argv with
  | nil => rfl
  | cons a argv ih =>
    rw [List.flatMap_cons, List.length_cons, List.append_assoc, readArgs, readArg_encoded]
    dsimp only
    rw [ih]
    rfl

/-- **What the encoder writes is read back.** -/
theorem readCommand_encoded (argv : List Bytes) (rest : Bytes) :
    readCommand (redisEncode argv ++ rest) = some (argv, rest) := by
  have hshape : redisEncode argv ++ rest = 42 :: (decimal argv.length ++ crlf ++
      ((argv.flatMap fun a => 36 :: decimal a.length ++ crlf ++ a ++ crlf) ++ rest)) := by
    simp only [redisEncode, List.append_assoc, List.cons_append]
  rw [hshape, readCommand, if_neg (not_not_intro rfl), readLength_decimal]
  exact readArgs_encoded argv rest

theorem readCommands_encoded (cmds : List (List Bytes)) {fuel : ℕ} (hfuel : cmds.length ≤ fuel) :
    readCommands fuel (cmds.flatMap redisEncode) = some cmds := by
  induction cmds generalizing fuel with
  | nil => cases fuel <;> rfl
  | cons argv cmds ih =>
    obtain ⟨fuel, rfl⟩ := Nat.exists_eq_succ_of_ne_zero (Nat.ne_of_gt (Nat.zero_lt_of_lt hfuel))
    have hread := readCommand_encoded argv (cmds.flatMap redisEncode)
    rw [List.flatMap_cons]
    rw [redisEncode, List.cons_append, List.cons_append, List.cons_append] at hread ⊢
    rw [readCommands, hread]
    dsimp only
    rw [ih (Nat.le_of_succ_le_succ hfuel)]
    rfl

/-- **A run of commands is read back**, each with its arguments. -/
theorem decodeCommands_encoded (cmds : List (List Bytes)) :
    decodeCommands (cmds.flatMap redisEncode) = some cmds := by
  refine readCommands_encoded cmds ?_
  induction cmds with
  | nil => exact Nat.le_refl 0
  | cons argv cmds ih =>
    have hpos : 1 ≤ (redisEncode argv).length := by
      rw [redisEncode, List.length_append, List.length_append, List.length_cons]
      omega
    rw [List.flatMap_cons, List.length_append, List.length_cons]
    omega

/-! ## Chunks -/

/-- The inner loop of `cmd_many`, with `room` places left in the command: the keys it takes, and
those after them. -/
def takeChunk (keepEmpty : Bool) : ℕ → List Bytes → List Bytes × List Bytes
  | _, [] => ([], [])
  | 0, keys => ([], keys)
  | room + 1, k :: keys =>
      if keepEmpty = true ∨ k ≠ [] then
        (k :: (takeChunk keepEmpty room keys).1, (takeChunk keepEmpty room keys).2)
      else takeChunk keepEmpty (room + 1) keys

/-- The keys that are kept. -/
def kept (keepEmpty : Bool) (keys : List Bytes) : List Bytes :=
  keys.filter fun k => keepEmpty || k ≠ []

variable {keepEmpty : Bool}

theorem kept_cons (k : Bytes) (keys : List Bytes) :
    kept keepEmpty (k :: keys) =
      if keepEmpty = true ∨ k ≠ [] then k :: kept keepEmpty keys else kept keepEmpty keys := by
  unfold kept
  rw [List.filter_cons]
  by_cases hk : keepEmpty = true ∨ k ≠ []
  · rw [if_pos hk, if_pos]
    simpa using hk
  · rw [if_neg hk, if_neg]
    simpa using hk

/-- **A chunk is the first of the keys that are kept**, and the rest are kept for later. -/
theorem takeChunk_spec (keepEmpty : Bool) (room : ℕ) (keys : List Bytes) :
    (takeChunk keepEmpty room keys).1 = (kept keepEmpty keys).take room ∧
      kept keepEmpty (takeChunk keepEmpty room keys).2 = (kept keepEmpty keys).drop room := by
  induction keys generalizing room with
  | nil => cases room <;> exact ⟨rfl, rfl⟩
  | cons k keys ih =>
    cases room with
    | zero => exact ⟨rfl, rfl⟩
    | succ room =>
      rw [takeChunk, kept_cons]
      by_cases hk : keepEmpty = true ∨ k ≠ []
      · rw [if_pos hk, if_pos hk]
        obtain ⟨htake, hdrop⟩ := ih room
        exact ⟨by rw [List.take_succ_cons, ← htake], by rw [List.drop_succ_cons, ← hdrop]⟩
      · rw [if_neg hk, if_neg hk]
        exact ih (room + 1)

theorem takeChunk_length (room : ℕ) (keys : List Bytes) :
    (takeChunk keepEmpty room keys).2.length ≤ keys.length := by
  induction keys generalizing room with
  | nil => cases room <;> exact Nat.le_refl 0
  | cons k keys ih =>
    cases room with
    | zero => exact Nat.le_refl _
    | succ room =>
      rw [takeChunk]
      split
      · exact Nat.le_succ_of_le (ih room)
      · exact Nat.le_succ_of_le (ih (room + 1))

/-- The inner loop goes forward. -/
theorem takeChunk_shorter (k : Bytes) (keys : List Bytes) :
    (takeChunk keepEmpty delChunk (k :: keys)).2.length < (k :: keys).length := by
  rw [delChunk, takeChunk]
  split
  · exact Nat.lt_succ_of_le (takeChunk_length _ keys)
  · exact Nat.lt_succ_of_le (takeChunk_length _ keys)

/-- The sizing pass of `ngx_http_cache_turbo_redis_cmd_many`: the size of the buffer and how many
commands there are. -/
def sizePass (keepEmpty : Bool) (lead : List Bytes) (keys : List Bytes) (total emitted : ℕ) : ℕ × ℕ :=
  match keys with
  | [] => (total, emitted)
  | k :: keys =>
      let r := takeChunk keepEmpty delChunk (k :: keys)
      if r.1 = [] then sizePass keepEmpty lead r.2 total emitted
      else sizePass keepEmpty lead r.2 (total + encodeLen (lead ++ r.1)) (emitted + 1)
termination_by keys.length
decreasing_by
  · exact takeChunk_shorter k keys
  · exact takeChunk_shorter k keys

/-- The encoding pass of `ngx_http_cache_turbo_redis_cmd_many`, behind the bytes `buf`. -/
def encodePass (keepEmpty : Bool) (lead : List Bytes) (keys : List Bytes) (buf : Bytes) : Bytes :=
  match keys with
  | [] => buf
  | k :: keys =>
      let r := takeChunk keepEmpty delChunk (k :: keys)
      if r.1 ≠ [] then encodePass keepEmpty lead r.2 (encodeInto buf (lead ++ r.1))
      else encodePass keepEmpty lead r.2 buf
termination_by keys.length
decreasing_by
  · exact takeChunk_shorter k keys
  · exact takeChunk_shorter k keys

/-- The chunks of a list of keys: 256 at a time. -/
def chunks (keys : List Bytes) : List (List Bytes) :=
  match keys with
  | [] => []
  | k :: keys => (k :: keys).take delChunk :: chunks ((k :: keys).drop delChunk)
termination_by keys.length
decreasing_by
  rw [List.length_drop, List.length_cons, delChunk]
  omega

theorem chunks_nil : chunks [] = [] := by rw [chunks]

theorem chunks_of_ne {keys : List Bytes} (h : keys ≠ []) :
    chunks keys = keys.take delChunk :: chunks (keys.drop delChunk) := by
  cases keys with
  | nil => exact absurd rfl h
  | cons k keys => rw [chunks]

theorem chunks_flatten (keys : List Bytes) : (chunks keys).flatten = keys := by
  induction keys using chunks.induct with
  | case1 => rw [chunks_nil, List.flatten_nil]
  | case2 k keys ih => rw [chunks, List.flatten_cons, ih, List.take_append_drop]

/-- **A chunk has at least one key, and at most 256.** -/
theorem chunks_length (keys : List Bytes) : ∀ c ∈ chunks keys, 1 ≤ c.length ∧ c.length ≤ delChunk := by
  induction keys using chunks.induct with
  | case1 =>
    rw [chunks_nil]
    exact nofun
  | case2 k keys ih =>
    rw [chunks]
    refine List.forall_mem_cons.2 ⟨?_, ih⟩
    have hpos : 0 < delChunk := by decide
    rw [List.length_take, List.length_cons]
    omega

/-- The number that the model of the tag purge counts. -/
theorem chunks_count (keys : List Bytes) :
    (chunks keys).length = (keys.length + delChunk - 1) / delChunk := by
  have hpos : 0 < delChunk := by decide
  induction keys using chunks.induct with
  | case1 =>
    rw [chunks_nil]
    rfl
  | case2 k keys ih =>
    rw [chunks, List.length_cons, ih, List.length_drop]
    rcases Nat.lt_or_ge (k :: keys).length delChunk with hlt | hge
    · have hzero : (k :: keys).length - delChunk = 0 := Nat.sub_eq_zero_of_le (Nat.le_of_lt hlt)
      have hone : ((k :: keys).length + delChunk - 1) / delChunk = 1 := by
        rw [List.length_cons] at hlt ⊢
        exact Nat.div_eq_of_lt_le (by omega) (by omega)
      rw [hzero, hone]
      rfl
    · have hshift : (k :: keys).length + delChunk - 1 =
          (k :: keys).length - delChunk + delChunk - 1 + delChunk := by omega
      rw [hshift, Nat.add_div_right _ hpos]

/-- **Both passes cut the same chunks**: those of the kept keys. -/
theorem sizePass_eq (lead keys : List Bytes) (total emitted : ℕ) :
    sizePass keepEmpty lead keys total emitted =
      (total + ((chunks (kept keepEmpty keys)).map fun c => encodeLen (lead ++ c)).sum,
        emitted + (chunks (kept keepEmpty keys)).length) := by
  induction keys, total, emitted using sizePass.induct keepEmpty lead with
  | case1 total emitted =>
    rw [sizePass, kept, List.filter_nil, chunks_nil]
    rfl
  | case2 total emitted k keys r hr ih =>
    obtain ⟨htake, hdrop⟩ := takeChunk_spec keepEmpty delChunk (k :: keys)
    have hnone : kept keepEmpty (k :: keys) = [] := by
      rw [htake, List.take_eq_nil_iff] at hr
      exact hr.resolve_left (by decide)
    rw [sizePass, if_pos hr, ih, hdrop, hnone, List.drop_nil]
  | case3 total emitted k keys r hr ih =>
    obtain ⟨htake, hdrop⟩ := takeChunk_spec keepEmpty delChunk (k :: keys)
    have hsome : kept keepEmpty (k :: keys) ≠ [] := by
      intro hnone
      rw [htake, hnone, List.take_nil] at hr
      exact hr rfl
    rw [sizePass, if_neg hr, ih, hdrop, chunks_of_ne hsome, List.map_cons, List.sum_cons,
      List.length_cons, htake, Nat.add_assoc, Nat.add_assoc, Nat.add_comm 1]

theorem encodePass_eq (lead keys : List Bytes) (buf : Bytes) :
    encodePass keepEmpty lead keys buf =
      buf ++ (chunks (kept keepEmpty keys)).flatMap fun c => redisEncode (lead ++ c) := by
  induction keys, buf using encodePass.induct keepEmpty lead with
  | case1 buf => rw [encodePass, kept, List.filter_nil, chunks_nil, List.flatMap_nil, List.append_nil]
  | case2 buf k keys r hr ih =>
    obtain ⟨htake, hdrop⟩ := takeChunk_spec keepEmpty delChunk (k :: keys)
    have hsome : kept keepEmpty (k :: keys) ≠ [] := by
      intro hnone
      rw [htake, hnone, List.take_nil] at hr
      exact hr rfl
    rw [encodePass, if_pos hr, ih, hdrop, chunks_of_ne hsome, List.flatMap_cons, htake, encodeInto,
      List.append_assoc]
  | case3 buf k keys r hr ih =>
    obtain ⟨htake, hdrop⟩ := takeChunk_spec keepEmpty delChunk (k :: keys)
    have hnone : kept keepEmpty (k :: keys) = [] := by
      rw [not_ne_iff, htake, List.take_eq_nil_iff] at hr
      exact hr.resolve_left (by decide)
    rw [encodePass, if_neg hr, ih, hdrop, hnone, List.drop_nil]

/-! ## The commands -/

/-- An operation that was launched: the buffer it sends and the size it was created with,
`expected_replies`, whether there is a completion, and `counts_inflight`. -/
structure Launched where
  send : Bytes
  size : ℕ
  expected : ℕ
  callback : Bool
  countsInflight : Bool
  deriving DecidableEq, Repr

/-- How a command function returns: with nothing to do, with an error, or with the operation
launched. -/
inductive Sent
  | ok
  | error
  | launched (op : Launched)
  deriving DecidableEq, Repr

/-- What the outside grants to `cmd_many`: its allocations, and the launch. -/
structure ManyRoom where
  op : Bool
  argv : Bool
  send : Bool
  data : Bool
  launch : Bool
  deriving DecidableEq, Repr

/-- `ngx_http_cache_turbo_redis_cmd_many`, with or without a completion that has `dataSize` bytes
of its own. -/
def cmdMany (enable : Bool) (room : ManyRoom) (lead : List Bytes) (keys : List Bytes)
    (keepEmpty : Bool) (callback : Bool) (dataSize : ℕ) : Sent :=
  if enable = false ∨ keys = [] ∨ lead = [] then .ok
  else if room.op = false then .error
  else if room.argv = false then .error
  else
    let sized := sizePass keepEmpty lead keys 0 0
    if sized.2 = 0 then .ok
    else if room.send = false then .error
    else
      let send := encodePass keepEmpty lead keys []
      if callback = true ∧ dataSize > 0 ∧ room.data = false then .error
      else if room.launch = false then .error
      else .launched ⟨send, sized.1, sized.2, callback, false⟩

/-- `NGX_HTTP_CACHE_TURBO_MAX_TAGS`. -/
def maxTags : ℕ := 16

/-- `ngx_http_cache_turbo_redis_tagkey`. -/
def redisTagkey (pre : L2Prefix) (name : Bytes) : Bytes := pre.bytes ++ lit ['t', 'a', 'g', ':'] ++ name

/-- The three commands of a tag: the member is added, and the set gets the lifetime when it has
none or a shorter one. -/
def tagCommands (member ttl tagkey : Bytes) : List (List Bytes) :=
  [[lit ['S', 'A', 'D', 'D'], tagkey, member],
    [lit ['E', 'X', 'P', 'I', 'R', 'E'], tagkey, ttl, lit ['N', 'X']],
    [lit ['E', 'X', 'P', 'I', 'R', 'E'], tagkey, ttl, lit ['G', 'T']]]

/-- The first loop of `tag_add_impl`: the keys of the sets and the size of the buffer, where
`tagkeys` keys can be allocated. -/
def tagQueue (pre : L2Prefix) (member ttl : Bytes) : List Bytes → ℕ → Option (List Bytes × ℕ)
  | [], _ => some ([], 0)
  | name :: names, tagkeys =>
      if name = [] then tagQueue pre member ttl names tagkeys
      else
        match tagkeys with
        | 0 => none
        | tagkeys + 1 =>
            (tagQueue pre member ttl names tagkeys).map fun q =>
              (redisTagkey pre name :: q.1,
                ((tagCommands member ttl (redisTagkey pre name)).map encodeLen).sum + q.2)

/-- What the outside grants to `tag_add_impl`. -/
structure TagRoom where
  op : Bool
  bufs : Bool
  tagkeys : ℕ
  send : Bool
  launch : Bool
  deriving DecidableEq, Repr

/-- `ngx_http_cache_turbo_redis_tag_add_impl`, for the member of an object. -/
def tagAddImpl (enable : Bool) (pre : L2Prefix) (room : TagRoom) (keyHash : KeyHash)
    (names : List Bytes) (ttl : Time) (countInflight : Bool) : Sent :=
  if enable = false ∨ ttl ≤ 0 ∨ names = [] then .ok
  else
    let names := if names.length > maxTags then names.take maxTags else names
    if room.op = false then .error
    else if room.bufs = false then .error
    else
      match tagQueue pre (redisKey pre keyHash) (timeDecimal ttl) names room.tagkeys with
      | none => .error
      | some ([], _) => .ok
      | some (tagkey :: tagkeys, total) =>
          if room.send = false then .error
          else
            let send := (tagkey :: tagkeys).foldl (fun buf k =>
              (tagCommands (redisKey pre keyHash) (timeDecimal ttl) k).foldl encodeInto buf) []
            if room.launch = false then .error
            else .launched ⟨send, total, (tagkey :: tagkeys).length * 3, false, countInflight⟩

/-! ## What is sent -/

/-- A launched operation sends the commands `cmds`, in a buffer that they fit, and awaits a reply
for each of them. -/
structure Carries (op : Launched) (cmds : List (List Bytes)) : Prop where
  fits : op.send.length ≤ op.size
  decoded : decodeCommands op.send = some cmds
  expected : op.expected = cmds.length
  some : 0 < cmds.length

theorem flatMap_encode_length_le {cmds : List (List Bytes)}
    (h : ∀ c ∈ cmds, c.length < 10 ^ 20 ∧ ∀ a ∈ c, a.length < 2 ^ 64) :
    (cmds.flatMap redisEncode).length ≤ (cmds.map encodeLen).sum := by
  induction cmds with
  | nil => exact Nat.le_refl 0
  | cons c cmds ih =>
    obtain ⟨⟨hcount, hargs⟩, hcmds⟩ := List.forall_mem_cons.1 h
    have hlen := redisEncode_length_le hcount hargs
    have hrest := ih hcmds
    rw [List.flatMap_cons, List.length_append, List.map_cons, List.sum_cons]
    omega

/-- **The commands of `cmd_many`** carry the kept keys in their order. -/
theorem cmdMany_launched {enable : Bool} {room : ManyRoom} {lead keys : List Bytes}
    {callback : Bool} {dataSize : ℕ} {op : Launched} (hlead : Sized lead) (hkeys : Sized keys)
    (h : cmdMany enable room lead keys keepEmpty callback dataSize = .launched op) :
    ∃ cmds : List (List Bytes), Carries op (cmds.map (lead ++ ·)) ∧
      (∀ c ∈ cmds, 1 ≤ c.length ∧ c.length ≤ delChunk) ∧ cmds.flatten = kept keepEmpty keys := by
  unfold cmdMany at h
  dsimp only at h
  split_ifs at h with _ _ _ hnone _ _ _
  obtain rfl := Sent.launched.inj h
  have hexpected : (sizePass keepEmpty lead keys 0 0).2 =
      (chunks (kept keepEmpty keys)).length := by
    rw [sizePass_eq]
    exact Nat.zero_add _
  rw [hexpected] at hnone
  refine ⟨chunks (kept keepEmpty keys), ?_, chunks_length _, chunks_flatten _⟩
  have hmap : (chunks (kept keepEmpty keys)).flatMap (fun c => redisEncode (lead ++ c)) =
      ((chunks (kept keepEmpty keys)).map (lead ++ ·)).flatMap redisEncode := by
    rw [List.flatMap_map]
  have hsizes : ∀ c ∈ (chunks (kept keepEmpty keys)).map (lead ++ ·),
      c.length < 10 ^ 20 ∧ ∀ a ∈ c, a.length < 2 ^ 64 := by
    intro c hc
    obtain ⟨chunk, hchunk, rfl⟩ := List.mem_map.1 hc
    have hshort := (chunks_length _ chunk hchunk).2
    have hcount := hlead.1
    rw [delChunk] at hshort
    refine ⟨by rw [List.length_append]; omega, fun a ha => ?_⟩
    rcases List.mem_append.1 ha with ha | ha
    · exact hlead.2 a ha
    · have hmem : a ∈ kept keepEmpty keys := by
        rw [← chunks_flatten (kept keepEmpty keys)]
        exact List.mem_flatten.2 ⟨chunk, hchunk, ha⟩
      exact hkeys.2 a (List.mem_filter.1 hmem).1
  have hbound := flatMap_encode_length_le hsizes
  rw [List.map_map] at hbound
  constructor
  · rw [encodePass_eq, sizePass_eq, List.nil_append, Nat.zero_add, hmap]
    exact hbound
  · rw [encodePass_eq, List.nil_append, hmap]
    exact decodeCommands_encoded _
  · rw [List.length_map]
    exact hexpected
  · rw [List.length_map]
    exact Nat.pos_of_ne_zero hnone

/-- The names that have a set. -/
def tagged (names : List Bytes) : List Bytes := names.filter (· ≠ [])

theorem tagQueue_eq_some {pre : L2Prefix} {member ttl : Bytes} {names : List Bytes} {room : ℕ}
    {q : List Bytes × ℕ} (h : tagQueue pre member ttl names room = some q) :
    q.1 = (tagged names).map (redisTagkey pre) ∧
      q.2 = ((q.1.flatMap (tagCommands member ttl)).map encodeLen).sum := by
  induction names generalizing room q with
  | nil =>
    cases room <;> obtain rfl := Option.some.inj h <;> exact ⟨rfl, rfl⟩
  | cons name names ih =>
    unfold tagQueue at h
    by_cases hname : name = []
    · rw [if_pos hname] at h
      rw [tagged, List.filter_cons, if_neg (by simp [hname])]
      exact ih h
    · rw [if_neg hname] at h
      cases room with
      | zero => cases h
      | succ room =>
        obtain ⟨p, hp, rfl⟩ := Option.map_eq_some_iff.1 h
        obtain ⟨hkeys, htotal⟩ := ih hp
        rw [tagged, List.filter_cons, if_pos (by simp [hname]), List.map_cons]
        refine ⟨by rw [hkeys]; rfl, ?_⟩
        rw [htotal, List.flatMap_cons, List.map_append, List.sum_append]

theorem foldl_tagCommands (member ttl : Bytes) (tagkeys : List Bytes) (buf : Bytes) :
    tagkeys.foldl (fun buf k => (tagCommands member ttl k).foldl encodeInto buf) buf =
      buf ++ (tagkeys.flatMap (tagCommands member ttl)).flatMap redisEncode := by
  induction tagkeys generalizing buf with
  | nil => exact (List.append_nil buf).symm
  | cons k tagkeys ih =>
    rw [List.foldl_cons, ih, List.flatMap_cons, List.flatMap_append]
    simp only [tagCommands, List.foldl_cons, List.foldl_nil, encodeInto, List.flatMap_cons,
      List.flatMap_nil, List.append_nil, List.append_assoc]

theorem tagCommands_length (member ttl : Bytes) (tagkeys : List Bytes) :
    (tagkeys.flatMap (tagCommands member ttl)).length = tagkeys.length * 3 := by
  induction tagkeys with
  | nil => rfl
  | cons k ks ih =>
    rw [List.flatMap_cons, List.length_append, ih, List.length_cons, Nat.succ_mul, Nat.add_comm]
    rfl

/-- The arguments of the three commands are as short as the names that they are made of. -/
theorem tagCommands_short {member ttl tagkey : Bytes} (hmember : member.length < 2 ^ 64)
    (httl : ttl.length < 2 ^ 64) (hkey : tagkey.length < 2 ^ 64) {c : List Bytes}
    (hc : c ∈ tagCommands member ttl tagkey) :
    c.length < 10 ^ 20 ∧ ∀ a ∈ c, a.length < 2 ^ 64 := by
  simp only [tagCommands, List.mem_cons, List.not_mem_nil, or_false] at hc
  rcases hc with rfl | rfl | rfl
  all_goals
    refine ⟨?_, fun a ha => ?_⟩
    · simp only [List.length_cons, List.length_nil]
      omega
    simp only [List.mem_cons, List.not_mem_nil, or_false] at ha
  · rcases ha with rfl | rfl | rfl
    · decide
    · exact hkey
    · exact hmember
  · rcases ha with rfl | rfl | rfl | rfl
    · decide
    · exact hkey
    · exact httl
    · decide
  · rcases ha with rfl | rfl | rfl | rfl
    · decide
    · exact hkey
    · exact httl
    · decide

theorem timeDecimal_length_le (t : Time) (h : t < 2 ^ 63) (hpos : 0 < t) :
    (timeDecimal t).length ≤ 20 := by
  have hnat : t.toNat < 10 ^ 20 := by
    have hle : (t.toNat : ℤ) = t := Int.toNat_of_nonneg (le_of_lt hpos)
    have hlt : (t.toNat : ℤ) < 2 ^ 63 := by rw [hle]; exact h
    omega
  rw [timeDecimal, if_neg (not_lt.2 (le_of_lt hpos))]
  exact decimal_length_le_of_lt (by decide) hnat

/-- **The commands of `tag_add`** are three for each name that is not empty. -/
theorem tagAddImpl_launched {enable : Bool} {pre : L2Prefix} {room : TagRoom} {keyHash : KeyHash}
    {names : List Bytes} {ttl : Time} {countInflight : Bool} {op : Launched}
    (hnames : ∀ name ∈ names, name.length < 2 ^ 63) (httl : ttl < 2 ^ 63)
    (h : tagAddImpl enable pre room keyHash names ttl countInflight = .launched op) :
    Carries op ((tagged (names.take maxTags)).flatMap fun name =>
      tagCommands (redisKey pre keyHash) (timeDecimal ttl) (redisTagkey pre name)) ∧
      op.expected = 3 * (tagged (names.take maxTags)).length := by
  unfold tagAddImpl at h
  by_cases hoff : enable = false ∨ ttl ≤ 0 ∨ names = []
  · rw [if_pos hoff] at h
    cases h
  rw [if_neg hoff] at h
  have hpos : 0 < ttl := by
    by_contra hle
    exact hoff (Or.inr (Or.inl (not_lt.1 hle)))
  have htake : (if names.length > maxTags then names.take maxTags else names) = names.take maxTags := by
    split
    · rfl
    · rename_i hle
      exact (List.take_of_length_le (Nat.le_of_not_lt hle)).symm
  dsimp only at h
  rw [htake] at h
  by_cases hop : room.op = false
  · rw [if_pos hop] at h
    cases h
  rw [if_neg hop] at h
  by_cases hbufs : room.bufs = false
  · rw [if_pos hbufs] at h
    cases h
  rw [if_neg hbufs] at h
  rcases hqueue : tagQueue pre (redisKey pre keyHash) (timeDecimal ttl) (names.take maxTags)
    room.tagkeys with _ | ⟨_ | ⟨tagkey, tagkeys⟩, total⟩
  · rw [hqueue] at h
    cases h
  · rw [hqueue] at h
    cases h
  rw [hqueue] at h
  dsimp only at h
  split_ifs at h
  obtain rfl := Sent.launched.inj h
  obtain ⟨hkeys, htotal⟩ := tagQueue_eq_some hqueue
  dsimp only at hkeys htotal
  have hcmds : (tagkey :: tagkeys).flatMap (tagCommands (redisKey pre keyHash) (timeDecimal ttl)) =
      (tagged (names.take maxTags)).flatMap fun name =>
        tagCommands (redisKey pre keyHash) (timeDecimal ttl) (redisTagkey pre name) := by
    rw [hkeys, List.flatMap_map]
  have hcount : (tagkey :: tagkeys).length = (tagged (names.take maxTags)).length := by
    rw [hkeys, List.length_map]
  have hmember : (redisKey pre keyHash).length < 2 ^ 64 :=
    lt_of_le_of_lt (redisKey_plain pre keyHash).2 (by decide)
  have htext : (timeDecimal ttl).length < 2 ^ 64 :=
    lt_of_le_of_lt (timeDecimal_length_le ttl httl hpos) (by decide)
  have hkey : ∀ k ∈ tagkey :: tagkeys, k.length < 2 ^ 64 := by
    rw [hkeys]
    intro k hk
    obtain ⟨name, hname, rfl⟩ := List.mem_map.1 hk
    have hlen := hnames name (List.mem_of_mem_take (List.mem_filter.1 hname).1)
    have hshort := pre.short
    have htag : (lit ['t', 'a', 'g', ':']).length = 4 := rfl
    have hmax : l2KeyMax = 250 := rfl
    rw [redisTagkey, List.length_append, List.length_append, htag]
    omega
  refine ⟨⟨?_, ?_, ?_, ?_⟩, ?_⟩
  · rw [foldl_tagCommands, List.nil_append, htotal]
    refine flatMap_encode_length_le fun c hc => ?_
    obtain ⟨k, hk, hck⟩ := List.mem_flatMap.1 hc
    exact tagCommands_short hmember htext (hkey k hk) hck
  · rw [foldl_tagCommands, List.nil_append, ← hcmds]
    exact decodeCommands_encoded _
  · rw [← hcmds, tagCommands_length]
  · rw [← hcmds, tagCommands_length, List.length_cons]
    omega
  · dsimp only
    rw [hcount, Nat.mul_comm]

/-! ## What the completion is told -/

/-- The bytes of a read. -/
def readBytes : DrainEvent → Bytes
  | .readable (.data bs) => bs
  | _ => []

/-- The drain of a launched operation. -/
def Launched.drain (op : Launched) : Drain :=
  ⟨if op.expected = 0 then 1 else op.expected, [], false⟩

/-- The events of an operation, until it is done. -/
def drainRun (d : Drain) : List DrainEvent → DrainState
  | [] => .live d
  | e :: es =>
      match drainEvent d e with
      | .live d => drainRun d es
      | .done d clean => .done d clean

/-- The calls of the completion that was passed to a command function: `op_done` makes one, with
its verdict, and there is no operation where none was launched. -/
def Sent.completions (sent : Sent) (es : List DrainEvent) : List Bool :=
  match sent with
  | .launched op =>
      match drainRun op.drain es with
      | .live _ => []
      | .done d clean => if op.callback then [drainVerdict d clean] else []
  | _ => []

/-- The bytes are `n` complete replies, of any kind. -/
def Replies (n : ℕ) (recv : Bytes) : Prop :=
  ∃ replies : List Bytes, replies.length = n ∧ recv = replies.flatten ∧
    ∀ reply ∈ replies, replyFrame reply = .ok []

theorem drainScan_eq_all {n : ℕ} {p rest : Bytes} {failed mark : Bool}
    (h : drainScan n p failed = .all rest mark) :
    ∃ front, Replies n front ∧ p = front ++ rest := by
  induction n generalizing p failed with
  | zero =>
    obtain ⟨rfl, -⟩ := DrainScan.all.inj h
    exact ⟨[], ⟨[], rfl, rfl, nofun⟩, rfl⟩
  | succ n ih =>
    rw [drainScan] at h
    rcases hframe : replyFrame p with _ | _ | next
    · rw [hframe] at h
      cases h
    · rw [hframe] at h
      cases h
    · rw [hframe] at h
      obtain ⟨front, ⟨replies, hlen, rfl, hall⟩, rfl⟩ := ih h
      obtain ⟨piece, rfl, hpiece⟩ := (takesPrefix_replyFrame p _).1 hframe
      refine ⟨piece ++ replies.flatten, ⟨piece :: replies, ?_, rfl, ?_⟩, ?_⟩
      · rw [List.length_cons, hlen]
      · exact List.forall_mem_cons.2 ⟨hpiece, hall⟩
      · rw [List.append_assoc]

/-- An operation is clean at the end of its last reply. -/
theorem drainEvent_clean {d d' : Drain} {e : DrainEvent} (h : drainEvent d e = .done d' true) :
    Replies d.expected d'.recv := by
  cases e with
  | abandon => cases h
  | readable r =>
    rw [drainEvent.eq_def] at h
    dsimp only at h
    split at h
    · cases h
    cases r with
    | again armed => cases armed <;> cases h
    | failed => cases h
    | data bs =>
      dsimp only at h
      split at h
      · cases h
      split at h
      · cases h
      · cases h
      · rename_i failed hscan
        obtain ⟨rfl, -⟩ := DrainState.done.inj h
        obtain ⟨front, hfront, happend⟩ := drainScan_eq_all hscan
        dsimp only
        rw [happend, List.append_nil]
        exact hfront
      · cases h

/-- What a front of good replies looks like: they are not all there, or nothing is missing. -/
theorem drainScan_front {n : ℕ} {p more : Bytes} (h : RepliesOk n (p ++ more)) :
    drainScan n p false = .short false ∨ drainScan n p false = .all [] false ∧ more = [] := by
  induction n generalizing p with
  | zero =>
    obtain ⟨rfl, rfl⟩ := List.append_eq_nil_iff.1 (repliesOk_zero.1 h)
    exact Or.inr ⟨rfl, rfl⟩
  | succ n ih =>
    obtain ⟨rest, hframe, hhead, hrest⟩ := repliesOk_succ.1 h
    rw [drainScan]
    rcases hp : replyFrame p with _ | _ | next
    · exact Or.inl rfl
    · rw [replyFrame, refuses_redisFrame _ hp more] at hframe
      cases hframe
    · have hnext := takesPrefix_replyFrame.append hp more
      rw [hnext] at hframe
      obtain rfl := Scan.ok.inj hframe
      cases p with
      | nil => cases hp
      | cons c p =>
        have hc : (false || (c :: p).head? == some 45) = false := by
          simpa using hhead
        dsimp only
        rw [hc]
        exact ih hrest

/-- What an operation has received. -/
def heard : DrainState → Bytes
  | .live d => d.recv
  | .done d _ => d.recv

/-- All that is read is received, as long as it fits, or the operation is done with what it had. -/
theorem heard_drainEvent {d : Drain} {e : DrainEvent}
    (hfits : (d.recv ++ readBytes e).length ≤ recvSize) :
    heard (drainEvent d e) = d.recv ++ readBytes e ∨ ∃ clean, drainEvent d e = .done d clean := by
  cases e with
  | abandon => exact Or.inr ⟨false, rfl⟩
  | readable r =>
    by_cases hfull : d.recv.length ≥ recvSize
    · exact Or.inr ⟨false, by simp only [drainEvent, if_pos hfull]⟩
    simp only [drainEvent, if_neg hfull]
    cases r with
    | again armed =>
      cases armed with
      | false => exact Or.inr ⟨false, rfl⟩
      | true => exact Or.inl (List.append_nil _).symm
    | failed => exact Or.inr ⟨false, rfl⟩
    | data bs =>
      have htake : bs.take (recvSize - d.recv.length) = bs := by
        rw [readBytes, List.length_append] at hfits
        exact List.take_of_length_le (by omega)
      dsimp only
      rw [htake]
      by_cases hbs : bs = []
      · exact Or.inr ⟨false, if_pos hbs⟩
      rw [if_neg hbs]
      refine Or.inl ?_
      split <;> rfl

theorem heard_drainRun {d : Drain} {es : List DrainEvent}
    (hfits : (d.recv ++ es.flatMap readBytes).length ≤ recvSize) :
    ∃ k, heard (drainRun d es) = d.recv ++ (es.take k).flatMap readBytes := by
  induction es generalizing d with
  | nil => exact ⟨0, (List.append_nil _).symm⟩
  | cons e es ih =>
    rw [List.flatMap_cons] at hfits
    have hone : (d.recv ++ readBytes e).length ≤ recvSize := by
      simp only [List.length_append] at hfits ⊢
      omega
    rcases heard_drainEvent hone with hheard | ⟨clean, hdone⟩
    · rcases hstep : drainEvent d e with d' | ⟨d', clean⟩
      · rw [hstep, heard] at hheard
        obtain ⟨k, hk⟩ := ih (d := d') (by rw [hheard, List.append_assoc]; exact hfits)
        refine ⟨k + 1, ?_⟩
        rw [drainRun, hstep]
        dsimp only
        rw [hk, hheard, List.take_succ_cons, List.flatMap_cons, List.append_assoc]
      · refine ⟨1, ?_⟩
        rw [drainRun, hstep]
        dsimp only
        rw [← hstep, hheard, List.take_succ_cons, List.take_zero, List.flatMap_cons,
          List.flatMap_nil, List.append_nil]
    · refine ⟨0, ?_⟩
      rw [drainRun, hdone, List.take_zero]
      exact (List.append_nil _).symm

/-- **The verdict of a run.** -/
theorem drainRun_spec {d : Drain} (h : d.Waiting) (es : List DrainEvent) :
    (∃ d', drainRun d es = .live d' ∧ d'.expected = d.expected ∧ d'.Waiting) ∨
      ∃ d' clean, drainRun d es = .done d' clean ∧
        (drainVerdict d' clean = true ↔ RepliesOk d.expected d'.recv) ∧
        (clean = true → Replies d.expected d'.recv) := by
  induction es generalizing d with
  | nil => exact Or.inl ⟨d, rfl, rfl, h⟩
  | cons e es ih =>
    rw [drainRun]
    rcases drainEvent_spec h e with
      ⟨d', hstep, hexpected, hwaiting⟩ | ⟨d', clean, hstep, hexpected, hverdict⟩
    · rw [hstep]
      dsimp only
      rw [← hexpected]
      exact ih hwaiting
    · rw [hstep]
      refine Or.inr ⟨d', clean, rfl, by rw [← hexpected]; exact hverdict, fun hclean => ?_⟩
      rw [hclean] at hstep
      exact drainEvent_clean hstep

/-- The reads of a stream in pieces. -/
def reads (pieces : List Bytes) : List DrainEvent := pieces.map fun bs => .readable (.data bs)

/-- What a read of a piece does. -/
theorem drainEvent_piece {d : Drain} (h : d.Waiting) {bs : Bytes} (hbs : bs ≠ [])
    (hfits : (d.recv ++ bs).length ≤ recvSize) :
    drainEvent d (.readable (.data bs)) =
      match drainScan d.expected (d.recv ++ bs) false with
      | .declined => .done { d with recv := d.recv ++ bs } false
      | .short failed => .live { d with recv := d.recv ++ bs, failed := failed }
      | .all [] failed => .done { d with recv := d.recv ++ bs, failed := failed } true
      | .all (_ :: _) failed => .done { d with recv := d.recv ++ bs, failed := failed } false := by
  have hpos := List.length_pos_of_ne_nil hbs
  rw [List.length_append] at hfits
  have htake : bs.take (recvSize - d.recv.length) = bs := List.take_of_length_le (by omega)
  rw [drainEvent.eq_def]
  dsimp only
  rcases hout : drainScan d.expected (d.recv ++ bs) false with _ | _ | ⟨_ | _, _⟩
  all_goals
    rw [if_neg (by omega), htake, if_neg hbs, h.scan, hout]

/-- **A stream in pieces**: success is told when the pieces so far are the replies, without an
error. -/
theorem drainRun_reads {d : Drain} (h : d.Waiting) {pieces : List Bytes}
    (hsome : ∀ piece ∈ pieces, piece ≠ [])
    (hfits : (d.recv ++ pieces.flatten).length ≤ recvSize) :
    (∃ d' clean, drainRun d (reads pieces) = .done d' clean ∧ drainVerdict d' clean = true) ↔
      ∃ k, RepliesOk d.expected (d.recv ++ (pieces.take k).flatten) := by
  induction pieces generalizing d with
  | nil =>
    refine ⟨fun ⟨_, _, hrun, _⟩ => (by cases hrun), fun ⟨k, hk⟩ => ?_⟩
    rw [List.take_nil, List.flatten_nil, List.append_nil] at hk
    exact (h.not_ok hk).elim
  | cons bs pieces ih =>
    obtain ⟨hbs, hsome⟩ := List.forall_mem_cons.1 hsome
    rw [List.flatten_cons, ← List.append_assoc] at hfits
    have hone : (d.recv ++ bs).length ≤ recvSize := by
      rw [List.length_append] at hfits
      omega
    have hfront : ∀ k, RepliesOk d.expected (d.recv ++ ((bs :: pieces).take k).flatten) →
        drainScan d.expected (d.recv ++ bs) false = .short false ∨
          drainScan d.expected (d.recv ++ bs) false = .all [] false := by
      intro k hk
      cases k with
      | zero =>
        rw [List.take_zero, List.flatten_nil, List.append_nil] at hk
        exact (h.not_ok hk).elim
      | succ k =>
        rw [List.take_succ_cons, List.flatten_cons, ← List.append_assoc] at hk
        exact (drainScan_front hk).imp_right And.left
    have hrun : drainRun d (reads (bs :: pieces)) =
        match drainEvent d (.readable (.data bs)) with
        | .live d => drainRun d (reads pieces)
        | .done d clean => .done d clean := rfl
    rw [hrun, drainEvent_piece h hbs hone]
    rcases hscan : drainScan d.expected (d.recv ++ bs) false with _ | failed | ⟨_ | ⟨c, rest⟩, failed⟩
    · refine ⟨fun ⟨_, _, hd, hv⟩ => ?_, fun ⟨k, hk⟩ => ?_⟩
      · obtain ⟨-, rfl⟩ := DrainState.done.inj hd
        cases hv
      · rw [hscan] at hfront
        rcases hfront k hk with hcase | hcase <;> cases hcase
    · -- the pieces so far are short of the replies: the later ones decide
      have hwaiting : Drain.Waiting { d with recv := d.recv ++ bs, failed := failed } :=
        ⟨h.1, Or.inr hscan⟩
      refine (ih hwaiting hsome hfits).trans ⟨fun ⟨k, hk⟩ => ⟨k + 1, ?_⟩, fun ⟨k, hk⟩ => ?_⟩
      · rw [List.take_succ_cons, List.flatten_cons, ← List.append_assoc]
        exact hk
      · cases k with
        | zero =>
          rw [List.take_zero, List.flatten_nil, List.append_nil] at hk
          exact (h.not_ok hk).elim
        | succ k =>
          rw [List.take_succ_cons, List.flatten_cons, ← List.append_assoc] at hk
          exact ⟨k, hk⟩
    · cases failed with
      | false =>
        refine ⟨fun _ => ⟨1, ?_⟩, fun _ => ⟨_, _, rfl, rfl⟩⟩
        rw [List.take_succ_cons, List.take_zero, List.flatten_cons, List.flatten_nil, List.append_nil]
        exact drainScan_all_iff.1 hscan
      | true =>
        refine ⟨fun ⟨_, _, hd, hv⟩ => ?_, fun ⟨k, hk⟩ => ?_⟩
        · obtain ⟨rfl, rfl⟩ := DrainState.done.inj hd
          cases hv
        · rw [hscan] at hfront
          rcases hfront k hk with hcase | hcase <;> cases hcase
    · refine ⟨fun ⟨_, _, hd, hv⟩ => ?_, fun ⟨k, hk⟩ => ?_⟩
      · obtain ⟨-, rfl⟩ := DrainState.done.inj hd
        cases hv
      · rw [hscan] at hfront
        rcases hfront k hk with hcase | hcase <;> cases hcase

/-- **An honest completion** of a launched operation, over all its runs.

`verdict`: success is told exactly when the bytes received are the expected replies, none of them
an error; `waiting`: and as soon as they are.  `pooled`: a connection that is kept is at the end
of the last reply.  `received`: these bytes are a front of what was read, where that fits.
`pieces`: a stream that fits succeeds, in pieces of any sizes, exactly when some of its first
pieces are the replies. -/
structure Told (op : Launched) : Prop where
  verdict : ∀ es d clean, drainRun op.drain es = .done d clean →
    (drainVerdict d clean = true ↔ RepliesOk op.expected d.recv)
  waiting : ∀ es d, drainRun op.drain es = .live d → ¬ RepliesOk op.expected d.recv
  pooled : ∀ es d clean crc ka conf c env, drainRun op.drain es = .done d clean →
    (kaSave crc ka conf c clean env).2 ≠ none → Replies op.expected d.recv
  received : ∀ es : List DrainEvent, (es.flatMap readBytes).length ≤ recvSize →
    ∃ k, heard (drainRun op.drain es) = (es.take k).flatMap readBytes
  pieces : ∀ pieces : List Bytes, (∀ piece ∈ pieces, piece ≠ []) →
    pieces.flatten.length ≤ recvSize →
      ((Sent.launched op).completions (reads pieces) = [true] ↔
        op.callback = true ∧ ∃ k, RepliesOk op.expected (pieces.take k).flatten)

theorem Launched.told {op : Launched} (hpos : 0 < op.expected) : Told op := by
  have hexpected : op.drain.expected = op.expected := if_neg (by omega)
  have hwaiting : op.drain.Waiting := ⟨by rw [hexpected]; exact hpos, Or.inl ⟨rfl, rfl⟩⟩
  constructor
  · intro es d clean hrun
    rcases drainRun_spec hwaiting es with ⟨d', hd', -⟩ | ⟨d', clean', hd', hverdict, -⟩
    · rw [hd'] at hrun
      cases hrun
    · rw [hd'] at hrun
      obtain ⟨rfl, rfl⟩ := DrainState.done.inj hrun
      rw [← hexpected]
      exact hverdict
  · intro es d hrun
    rcases drainRun_spec hwaiting es with ⟨d', hd', hsame, hlive⟩ | ⟨d', clean', hd', -⟩
    · rw [hd'] at hrun
      obtain rfl := DrainState.live.inj hrun
      rw [← hexpected, ← hsame]
      exact hlive.not_ok
    · rw [hd'] at hrun
      cases hrun
  · intro es d clean crc ka conf c env hrun hkept
    have hclean : clean = true := by
      by_contra hnot
      rw [Bool.not_eq_true] at hnot
      rw [kaSave, hnot] at hkept
      exact hkept rfl
    rcases drainRun_spec hwaiting es with ⟨d', hd', -⟩ | ⟨d', clean', hd', -, hreplies⟩
    · rw [hd'] at hrun
      cases hrun
    · rw [hd'] at hrun
      obtain ⟨rfl, rfl⟩ := DrainState.done.inj hrun
      rw [← hexpected]
      exact hreplies hclean
  · intro es hfits
    exact heard_drainRun (d := op.drain) hfits
  · intro pieces hsome hfits
    rw [← hexpected]
    refine Iff.trans ?_ (and_congr_right fun _ => drainRun_reads hwaiting hsome hfits)
    rw [Sent.completions]
    rcases drainRun op.drain (reads pieces) with d | ⟨d, clean⟩
    · exact ⟨nofun, fun ⟨_, _, _, hd, _⟩ => by cases hd⟩
    · dsimp only
      constructor
      · intro hcalls
        split at hcalls
        · rename_i hcallback
          exact ⟨hcallback, d, clean, rfl, (List.cons.inj hcalls).1⟩
        · cases hcalls
      · rintro ⟨hcallback, d', clean', hd', hverdict⟩
        obtain ⟨rfl, rfl⟩ := DrainState.done.inj hd'
        rw [if_pos hcallback, hverdict]

theorem cmdMany_callback {enable : Bool} {room : ManyRoom} {lead keys : List Bytes}
    {callback : Bool} {dataSize : ℕ} {op : Launched}
    (h : cmdMany enable room lead keys keepEmpty callback dataSize = .launched op) :
    op.callback = callback := by
  unfold cmdMany at h
  dsimp only at h
  split_ifs at h
  obtain rfl := Sent.launched.inj h
  rfl

/-- What has something to send is sent, where the outside grants it. -/
theorem cmdMany_sends {lead keys : List Bytes} (hlead : lead ≠ []) (hkeys : kept keepEmpty keys ≠ [])
    (callback : Bool) (dataSize : ℕ) :
    ∃ op, cmdMany true ⟨true, true, true, true, true⟩ lead keys keepEmpty callback dataSize =
      .launched op := by
  have hsome : keys ≠ [] := by
    rintro rfl
    exact hkeys rfl
  have hcount : (sizePass keepEmpty lead keys 0 0).2 ≠ 0 := by
    rw [sizePass_eq, chunks_of_ne hkeys]
    simp
  refine ⟨⟨encodePass keepEmpty lead keys [], (sizePass keepEmpty lead keys 0 0).1,
    (sizePass keepEmpty lead keys 0 0).2, callback, false⟩, ?_⟩
  rw [cmdMany, if_neg (by simp [hlead, hsome]), if_neg (by decide), if_neg (by decide)]
  dsimp only
  rw [if_neg hcount, if_neg (by decide), if_neg (by simp), if_neg (by decide)]

/-- **Pipelined commands**: `cmd_many` and `tag_add_impl` lose no key, write no byte more than they
have room for, and await a reply for each command; the completion is told the truth, and is not
called where nothing was launched. -/
theorem pipeline_carries_and_tells :
    (∀ (enable : Bool) (room : ManyRoom) (lead keys : List Bytes) (keepEmpty callback : Bool)
      (dataSize : ℕ), Sized lead → Sized keys →
      match cmdMany enable room lead keys keepEmpty callback dataSize with
      | .launched op =>
          (∃ cmds : List (List Bytes), Carries op (cmds.map (lead ++ ·)) ∧
            (∀ c ∈ cmds, 1 ≤ c.length ∧ c.length ≤ 256) ∧ cmds.flatten = kept keepEmpty keys) ∧
          op.callback = callback ∧ Told op
      | sent => ∀ es, sent.completions es = []) ∧
    (∀ (lead keys : List Bytes) (keepEmpty callback : Bool) (dataSize : ℕ), lead ≠ [] →
      kept keepEmpty keys ≠ [] → ∃ op, cmdMany true ⟨true, true, true, true, true⟩ lead keys
        keepEmpty callback dataSize = .launched op) ∧
    ∀ (enable : Bool) (pre : L2Prefix) (room : TagRoom) (keyHash : KeyHash) (names : List Bytes)
      (ttl : Time) (countInflight : Bool), (∀ name ∈ names, name.length < 2 ^ 63) →
      ttl < 2 ^ 63 →
      match tagAddImpl enable pre room keyHash names ttl countInflight with
      | .launched op =>
          Carries op ((tagged (names.take maxTags)).flatMap fun name =>
            tagCommands (redisKey pre keyHash) (timeDecimal ttl) (redisTagkey pre name)) ∧
          op.expected = 3 * (tagged (names.take maxTags)).length ∧
          (names.length ≤ maxTags → op.expected = 3 * (tagged names).length) ∧ Told op
      | sent => ∀ es, sent.completions es = [] := by
  refine ⟨fun enable room lead keys keepEmpty callback dataSize hlead hkeys => ?_,
    fun lead keys keepEmpty callback dataSize hlead hkeys =>
      cmdMany_sends hlead hkeys callback dataSize,
    fun enable pre room keyHash names ttl countInflight hnames httl => ?_⟩
  · rcases hsent : cmdMany enable room lead keys keepEmpty callback dataSize with _ | _ | op
    · exact fun _ => rfl
    · exact fun _ => rfl
    · obtain ⟨cmds, hcarries, hsize, hflat⟩ := cmdMany_launched hlead hkeys hsent
      have hpos : 0 < op.expected := by
        rw [hcarries.expected]
        exact hcarries.some
      exact ⟨⟨cmds, hcarries, hsize, hflat⟩, cmdMany_callback hsent, Launched.told hpos⟩
  · rcases hsent : tagAddImpl enable pre room keyHash names ttl countInflight with _ | _ | op
    · exact fun _ => rfl
    · exact fun _ => rfl
    · obtain ⟨hcarries, hthree⟩ := tagAddImpl_launched hnames httl hsent
      have hpos : 0 < op.expected := by
        rw [hcarries.expected]
        exact hcarries.some
      refine ⟨hcarries, hthree, fun hfew => ?_, Launched.told hpos⟩
      rw [hthree, List.take_of_length_le hfew]

/-- The prefix `c`. -/
def shortPrefix : L2Prefix where
  bytes := lit ['c']
  nonempty := by decide
  printable := by simp [lit]
  short := by decide

/-- A `DEL` of two keys with an empty one between them, and the index entry of one tag. -/
theorem pipeline_carries_and_tells_two_keys :
    (∃ op, cmdMany true ⟨true, true, true, true, true⟩ [lit ['D', 'E', 'L']]
      [lit ['a'], [], lit ['b']] false true 8 = .launched op ∧
      (∃ cmds : List (List Bytes), Carries op (cmds.map ([lit ['D', 'E', 'L']] ++ ·)) ∧
        (∀ c ∈ cmds, 1 ≤ c.length ∧ c.length ≤ 256) ∧ cmds.flatten = [lit ['a'], lit ['b']]) ∧
      Told op) ∧
    ∃ op, tagAddImpl true shortPrefix ⟨true, true, 1, true, true⟩ (Vector.replicate 32 0)
      [lit ['t'], []] 60 false = .launched op ∧ op.expected = 3 ∧ Told op := by
  constructor
  · obtain ⟨op, hsent⟩ := pipeline_carries_and_tells.2.1 [lit ['D', 'E', 'L']]
      [lit ['a'], [], lit ['b']] false true 8 (by decide) (by decide)
    have h := pipeline_carries_and_tells.1 true ⟨true, true, true, true, true⟩ [lit ['D', 'E', 'L']]
      [lit ['a'], [], lit ['b']] false true 8 ⟨by decide, by decide⟩ ⟨by decide, by decide⟩
    rw [hsent] at h
    exact ⟨op, hsent, h.1, h.2.2⟩
  · have h := pipeline_carries_and_tells.2.2 true shortPrefix ⟨true, true, 1, true, true⟩
      (Vector.replicate 32 0) [lit ['t'], []] 60 false (by decide) (by decide)
    exact ⟨_, rfl, rfl, h.2.2.2⟩

end Pipeline
end L2
end CacheTurbo
