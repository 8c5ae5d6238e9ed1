/-
# The memcached protocol

The second level on a memcached server (`ngx_http_cache_turbo_memcached.c`): the
encoder of a `set`, the loop that fills the reply buffer of a `get`, the parser
that looks at the buffer after every read, and the drain that reads the reply of a
`set` or a `delete`.  The socket is the part of the server's stream that has not
been read; an event says how much of it can be read at once.  The pool's
allocations succeed.
-/

import CacheTurbo.Http.KeySpec
import CacheTurbo.Lib.Incremental

namespace CacheTurbo
namespace L2

open Bytes Incremental

/-! ## The protocol's words -/

/-- `NGX_HTTP_CACHE_TURBO_MC_MAX_VALUE`. -/
def mcMaxValue : ℕ := 1048576

/-- `NGX_HTTP_CACHE_TURBO_MC_MAX_REPLY`. -/
def mcMaxReply : ℕ := mcMaxValue + 4096

/-- `NGX_HTTP_CACHE_TURBO_L2_KEY_MAX`. -/
def l2KeyMax : ℕ := 250

/-- `NGX_HTTP_CACHE_TURBO_L2_KEY_SUFFIX_MAX`. -/
def l2KeySuffixMax : ℕ := 64

/-- `CR LF`. -/
def crlf : Bytes := [13, 10]

/-- `"VALUE "`. -/
def valueTag : Bytes := lit ['V', 'A', 'L', 'U', 'E', ' ']

/-- `"END"`. -/
def endTag : Bytes := lit ['E', 'N', 'D']

/-- `"\r\nEND\r\n"`. -/
def trailer : Bytes := crlf ++ endTag ++ crlf

/-- A key prefix that `ngx_http_cache_turbo_check_l2_prefix` accepts. -/
structure L2Prefix where
  bytes : Bytes
  nonempty : bytes ≠ []
  printable : ∀ c ∈ bytes, 0x20 < c ∧ c < 0x7f
  short : bytes.length + l2KeySuffixMax ≤ l2KeyMax

/-- `ngx_http_cache_turbo_redis_key`. -/
def redisKey (pre : L2Prefix) (keyHash : KeyHash) : Bytes := pre.bytes ++ Http.hexDump keyHash.toList

/-! ## Numbers -/

/-- The loop of `ngx_atoi`, with `value` read so far. -/
def atoiLoop : Bytes → ℕ → Option ℕ
  | [], value => some value
  | c :: cs, value =>
      if c < 48 ∨ c > 57 then none
      else if value ≥ (2 ^ 63 - 1) / 10 ∧
          (value > (2 ^ 63 - 1) / 10 ∨ c.toNat - 48 > (2 ^ 63 - 1) % 10) then none
      else atoiLoop cs (value * 10 + (c.toNat - 48))

/-- `ngx_atoi`; `none` is `NGX_ERROR`. -/
def atoi (line : Bytes) : Option ℕ := if line = [] then none else atoiLoop line 0

/-- `%T`. -/
def timeDecimal (t : Time) : Bytes :=
  if t < 0 then 45 :: decimal (-t).toNat else decimal t.toNat

/-! ## The set command -/

/-- `ngx_http_cache_turbo_memcached_set`: what is sent, if anything. -/
def memcachedSet (pre : L2Prefix) (now : Time) (keyHash : KeyHash) (blob : Bytes)
    (retainTtl : Time) : Option Bytes :=
  if blob.length ≥ mcMaxValue then none
  else if retainTtl ≤ 0 then none
  else
    let retainTtl := if retainTtl > 60 * 60 * 24 * 30 then now + retainTtl else retainTtl
    some (lit ['s', 'e', 't', ' '] ++ redisKey pre keyHash ++ lit [' ', '0', ' ']
      ++ timeDecimal retainTtl ++ lit [' '] ++ decimal blob.length ++ crlf ++ blob ++ crlf)

/-! ## The reply of a get -/

/-- What `ngx_http_cache_turbo_mc_parse` says of the buffer. -/
inductive McParse
  | again
  | error
  | declined (consumed : ℕ)
  | ok (blob : Bytes) (consumed : ℕ)
  deriving DecidableEq, Repr

/-- The field up to the next space, or all that is left. -/
def upToSpace (q : Bytes) : Bytes :=
  match cut 32 q with
  | none => q
  | some (field, _) => field

/-- The length that the first line announces, where it is a sound `VALUE` line: after the key
and the flags, a number that ends at a space or with the line. -/
def mcValueLen (line : Bytes) : Option ℕ :=
  if line.take 6 ≠ valueTag then none
  else
    match cut 32 (line.drop 6) with
    | none => none
    | some (_, q) =>
        match cut 32 q with
        | none => none
        | some (_, q) =>
            match atoi (upToSpace q) with
            | none => none
            | some len => if len > mcMaxValue then none else some len

/-- `ngx_http_cache_turbo_mc_parse`. -/
def mcParse (rbuf : Bytes) : McParse :=
  match cut 13 rbuf with
  | none => .again
  | some (_, []) => .again
  | some (line, c :: data) =>
      if c ≠ 10 then .error
      else if line = endTag then .declined (line.length + 2)
      else
        match mcValueLen line with
        | none => .error
        | some len =>
            if data.length < len + 7 then .again
            else if (data.drop len).take 7 ≠ trailer then .error
            else .ok (data.take len) (line.length + 2 + len + 7)

/-- What the socket has for one call of `recv`: bytes, at most `n + 1` of them, nothing for
now, or an error, the end of the stream or a timeout. -/
inductive Recv
  | bytes (n : ℕ)
  | again
  | failed
  deriving DecidableEq, Repr

/-- `recv` into `room` bytes, where the stream `s` is left to read: what is read and what is
left; `none` is an error. -/
def recv (e : Recv) (room : ℕ) (s : Bytes) : Option (Bytes × Bytes) :=
  match e with
  | .failed => none
  | .again => some ([], s)
  | .bytes n => some (s.take (min (n + 1) room), s.drop (min (n + 1) room))

/-- The operation of a `get`: the buffer, its capacity, and the mark that the connection can
be kept. -/
structure McGet where
  rbuf : Bytes
  rcap : ℕ
  clean : Bool
  deriving DecidableEq, Repr

/-- The buffer of `ngx_http_cache_turbo_mc_fill` before it reads; `none` is the cap. -/
def mcGrow (op : McGet) : Option McGet :=
  if op.rbuf.length = op.rcap then
    if op.rcap ≥ mcMaxReply then none
    else
      let ncap := op.rcap * 2
      some { op with rcap := if ncap > mcMaxReply then mcMaxReply else ncap }
  else some op

/-- `ngx_http_cache_turbo_mc_fill`; `none` is `NGX_ERROR`, and a read of no bytes
`NGX_AGAIN`. -/
def mcFill (op : McGet) (e : Recv) (s : Bytes) : Option (McGet × Bytes × Bytes) :=
  match mcGrow op with
  | none => none
  | some op =>
      (recv e (op.rcap - op.rbuf.length) s).map fun (got, left) =>
        ({ op with rbuf := op.rbuf ++ got }, got, left)

/-- The answer of a `get`. -/
inductive GetVerdict
  | error
  | miss
  | hit (blob : Bytes)
  deriving DecidableEq, Repr

/-- The mark after a complete reply of `consumed` bytes. -/
def McGet.complete (op : McGet) (consumed : ℕ) : McGet :=
  if consumed = op.rbuf.length then { op with clean := true } else op

/-- `ngx_http_cache_turbo_mc_read_get` over the events of the socket: the verdict, or none
while it waits. -/
def mcReadGet : List Recv → McGet → Bytes → Option GetVerdict × McGet
  | [], op, _ => (none, op)
  | e :: es, op, s =>
      match mcFill op e s with
      | none => (some .error, op)
      | some (op, [], left) => mcReadGet es op left
      | some (op, _ :: _, left) =>
          match mcParse op.rbuf with
          | .again => mcReadGet es op left
          | .error => (some .error, op)
          | .declined consumed => (some .miss, op.complete consumed)
          | .ok blob consumed => (some (.hit blob), op.complete consumed)

/-- The operation that `ngx_http_cache_turbo_memcached_get` starts. -/
def mcGetStart (pagesize : ℕ) : McGet := ⟨[], pagesize * 4, false⟩

/-! ## The drain -/

/-- `sizeof(op->recv)`. -/
def mcRecvSize : ℕ := 128

/-- The operation of a `set` or a `delete`. -/
structure McDrain where
  recv : Bytes
  clean : Bool
  deriving DecidableEq, Repr

/-- The replies that leave the connection usable, by their first byte. -/
def mcAck (reply : Bytes) : Bool :=
  match reply.head? with
  | some 83 => reply.take 6 == lit ['S', 'T', 'O', 'R', 'E', 'D']
  | some 68 => reply.take 7 == lit ['D', 'E', 'L', 'E', 'T', 'E', 'D']
  | some 78 => reply.take 9 == lit ['N', 'O', 'T', '_', 'F', 'O', 'U', 'N', 'D']
  | _ => false

/-- `ngx_http_cache_turbo_mc_read_drain` over the events of the socket: whether it is done,
and its operation. -/
def mcReadDrain : List Recv → McDrain → Bytes → Bool × McDrain
  | [], op, _ => (false, op)
  | e :: es, op, s =>
      if op.recv.length ≥ mcRecvSize then (true, op)
      else
        match recv e (mcRecvSize - op.recv.length) s with
        | none => (true, op)
        | some ([], left) => mcReadDrain es op left
        | some (got, left) =>
            let op := { op with recv := op.recv ++ got }
            match cut 10 op.recv with
            | none => mcReadDrain es op left
            | some (line, after) =>
                if line.getLast? ≠ some 13 then (true, op)
                else if after = [] ∧ mcAck op.recv then (true, { op with clean := true })
                else (true, op)

/-! ## The server -/

/-- What a server keeps under a key. -/
structure Item where
  key : Bytes
  flags : Bytes
  data : Bytes
  deriving DecidableEq, Repr

/-- **A conforming server on a `set`**: the command line has five fields, the key is short
and plain, and the data block has the announced length and its end. -/
def serverSet (wire : Bytes) : Option Item := do
  let (line, block) ← cut 13 wire
  let (cmd, q) ← cut 32 line
  let (key, q) ← cut 32 q
  let (flags, q) ← cut 32 q
  let (_, bytes) ← cut 32 q
  let n ← atoi bytes
  if cmd = lit ['s', 'e', 't'] ∧ key.length ≤ l2KeyMax ∧
      block = 10 :: ((block.drop 1).take n ++ crlf) ∧ ((block.drop 1).take n).length = n then
    some ⟨key, flags, (block.drop 1).take n⟩
  else none

/-- A conforming server's reply to a `get` that finds the item. -/
def serverReply (it : Item) : Bytes :=
  valueTag ++ it.key ++ 32 :: it.flags ++ 32 :: decimal it.data.length ++ crlf ++ it.data ++ trailer

end L2
end CacheTurbo
