/-
# The keep-alive pool

The pool of idle connections to a Redis server, one bucket for each profile
(`ngx_http_cache_turbo_redis_ka_*` in `ngx_http_cache_turbo_redis.c`).  A bucket
has a fixed array of slots and two queues of slot numbers, the cached ones and
the free ones.  The checksum that a bucket is found by is a parameter.
-/

import CacheTurbo.Shm.Node
import CacheTurbo.Lib.Bytes
import Mathlib.Data.List.Perm.Basic
import Mathlib.Data.List.GetD
import Mathlib.Data.List.Nodup

namespace CacheTurbo
namespace L2

/-- A connection: its number, and whether it has a TLS layer. -/
structure Conn where
  id : ℕ
  ssl : Bool
  deriving DecidableEq, Repr

/-- **What decides identity on the server**: the address, the TLS settings with the trusted
certificates and the names, the credentials and the database. -/
structure Profile where
  sockaddr : Bytes
  tls : Bool
  tlsVerify : Bool
  db : ℤ
  user : Bytes
  password : Bytes
  tlsCa : Bytes
  tlsName : Bytes
  host : Bytes
  deriving DecidableEq, Repr

/-- The part of the location configuration that describes a Redis server. -/
structure RedisConf where
  sockaddr : Bytes
  tls : Bool
  tlsVerify : Bool
  db : ℤ
  user : Bytes
  password : Bytes
  tlsCa : Bytes
  tlsName : Bytes
  host : Bytes
  keepalive : ℤ
  keepaliveTimeout : ℕ
  deriving DecidableEq, Repr

def RedisConf.profile (conf : RedisConf) : Profile :=
  ⟨conf.sockaddr, conf.tls, conf.tlsVerify, conf.db, conf.user, conf.password, conf.tlsCa,
    conf.tlsName, conf.host⟩

/-- `ngx_http_cache_turbo_redis_ka_bucket_t`; `items` are the connections of its slots. -/
structure KaBucket where
  max : ℕ
  count : ℕ
  timeout : ℕ
  cache : List ℕ
  free : List ℕ
  items : List (Option Conn)
  ctxFp : UInt32
  tls : Bool
  tlsVerify : Bool
  db : ℤ
  user : Bytes
  password : Bytes
  tlsCa : Bytes
  tlsName : Bytes
  host : Bytes
  sockaddr : Bytes
  deriving DecidableEq, Repr

def KaBucket.profile (b : KaBucket) : Profile :=
  ⟨b.sockaddr, b.tls, b.tlsVerify, b.db, b.user, b.password, b.tlsCa, b.tlsName, b.host⟩

/-- `NGX_HTTP_CACHE_TURBO_REDIS_KA_MAX_BUCKETS`. -/
def kaMaxBuckets : ℕ := 16

/-- The bytes of an `ngx_int_t`, lowest first. -/
def intBytes (n : ℤ) : Bytes :=
  (List.range 8).map fun k => ((n % 18446744073709551616).toNat >>> (8 * k)).toUInt8

/-- `ngx_http_cache_turbo_redis_ka_fp`. -/
def kaFp (crc : Bytes → UInt32) (conf : RedisConf) : UInt32 :=
  crc ([if conf.tlsVerify then 1 else 0, 0] ++ intBytes conf.db ++ conf.user ++ [0]
    ++ conf.password ++ [0] ++ conf.tlsCa ++ [0] ++ conf.tlsName ++ [0] ++ conf.host)

/-- `ngx_http_cache_turbo_redis_ka_bucket_eq`. -/
def kaBucketEq (b : KaBucket) (conf : RedisConf) (addr : Bytes) (fp : UInt32) (wantTls : Bool) :
    Bool :=
  b.ctxFp == fp && b.tls == wantTls && b.sockaddr == addr && b.db == conf.db
    && b.tlsVerify == conf.tlsVerify && b.user == conf.user && b.password == conf.password
    && b.tlsCa == conf.tlsCa && b.tlsName == conf.tlsName && b.host == conf.host

/-- A new bucket: all its slots are free. -/
def kaBucketNew (conf : RedisConf) (addr : Bytes) (fp : UInt32) (wantTls : Bool) : KaBucket :=
  { max := conf.keepalive.toNat
    count := 0
    timeout := if conf.keepaliveTimeout ≠ 0 then conf.keepaliveTimeout else 60000
    cache := []
    free := (List.range conf.keepalive.toNat).reverse
    items := List.replicate conf.keepalive.toNat none
    ctxFp := fp
    tls := wantTls
    tlsVerify := conf.tlsVerify
    db := conf.db
    user := conf.user
    password := conf.password
    tlsCa := conf.tlsCa
    tlsName := conf.tlsName
    host := conf.host
    sockaddr := addr }

/-- `ngx_http_cache_turbo_redis_ka_bucket`: the number of the bucket; `room` is whether the
pool has room for a new one. -/
def kaBucket (ka : List KaBucket) (conf : RedisConf) (addr : Bytes) (fp : UInt32)
    (wantTls create room : Bool) : List KaBucket × Option ℕ :=
  if conf.keepalive ≤ 0 then (ka, none)
  else
    match ka.findIdx? fun b => kaBucketEq b conf addr fp wantTls with
    | some i => (ka, some i)
    | none =>
        if !create then (ka, none)
        else if ka.length ≥ kaMaxBuckets then (ka, none)
        else if !room then (ka, none)
        else (ka ++ [kaBucketNew conf addr fp wantTls], some ka.length)

/-- The slot `i` goes from the cached queue to the head of the free one. -/
def KaBucket.release (b : KaBucket) (i : ℕ) : KaBucket :=
  { b with
    cache := b.cache.erase i
    free := i :: b.free
    count := b.count - 1
    items := b.items.set i none }

/-- The slot at the head of the free queue takes a connection and goes to the head of the
cached one. -/
def KaBucket.put (b : KaBucket) (i : ℕ) (c : Conn) : KaBucket :=
  { b with
    cache := i :: b.cache
    free := b.free.erase i
    count := b.count + 1
    items := b.items.set i (some c) }

/-- `ngx_http_cache_turbo_redis_ka_get`. -/
def kaGet (crc : Bytes → UInt32) (ka : List KaBucket) (conf : RedisConf) :
    List KaBucket × Option Conn :=
  match kaBucket ka conf conf.sockaddr (kaFp crc conf) conf.tls false true with
  | (ka, none) => (ka, none)
  | (ka, some i) =>
      match ka[i]? with
      | none => (ka, none)
      | some b =>
          match b.cache with
          | [] => (ka, none)
          | j :: _ => (ka.set i (b.release j), b.items.getD j none)

/-- `ngx_http_cache_turbo_redis_ka_drop` on slot `j` of bucket `i`: the connection that is
closed. -/
def kaDrop (ka : List KaBucket) (i j : ℕ) : List KaBucket × Option Conn :=
  match ka[i]? with
  | none => (ka, none)
  | some b => (ka.set i (b.release j), b.items.getD j none)

/-- What `ngx_http_cache_turbo_redis_ka_save` finds: whether the connection has failed, what
a read of one byte gives, whether there is room for a bucket, and whether the read event can
be armed. -/
structure SaveEnv where
  failed : Bool
  silent : Bool
  room : Bool
  armed : Bool
  deriving DecidableEq, Repr

/-- `ngx_http_cache_turbo_redis_ka_save` of a connection whose operation has ended, `clean`
or not: the pool, and whether the connection is kept; `none` leaves it to the caller. -/
def kaSave (crc : Bytes → UInt32) (ka : List KaBucket) (conf : RedisConf) (c : Conn)
    (clean : Bool) (env : SaveEnv) : List KaBucket × Option Bool :=
  if !clean then (ka, none)
  else if env.failed then (ka, none)
  else
    match kaBucket ka conf conf.sockaddr (kaFp crc conf) c.ssl true env.room with
    | (ka, none) => (ka, none)
    | (ka, some i) =>
        match ka[i]? with
        | none => (ka, none)
        | some b =>
            if b.count ≥ b.max then (ka, none)
            else
              match b.free with
              | [] => (ka, none)
              | j :: _ =>
                  if !env.silent then (ka, none)
                  else
                    let ka := ka.set i (b.put j c)
                    if env.armed then (ka, some true) else ((kaDrop ka i j).1, some false)

/-! ## What a bucket holds -/

/-- The connections of the cached slots. -/
def KaBucket.conns (b : KaBucket) : List Conn := b.cache.filterMap fun i => b.items.getD i none

/-- **A bucket in order**: its two queues share out the slots, it counts the cached ones, and
these and no others have a connection, which is of the bucket's kind. -/
structure KaBucket.Ok (b : KaBucket) : Prop where
  slots : (b.cache ++ b.free).Perm (List.range b.max)
  count : b.count = b.cache.length
  items : b.items.length = b.max
  held : ∀ i, i ∈ b.cache ↔ ∃ c, b.items[i]? = some (some c)
  ssl : ∀ c ∈ b.conns, c.ssl = b.tls

theorem KaBucket.Ok.nodup {b : KaBucket} (h : b.Ok) : (b.cache ++ b.free).Nodup :=
  h.slots.nodup_iff.2 List.nodup_range

/-- The count never exceeds the maximum. -/
theorem KaBucket.Ok.count_le {b : KaBucket} (h : b.Ok) : b.count ≤ b.max := by
  have hlen := h.slots.length_eq
  rw [List.length_append, List.length_range] at hlen
  rw [h.count]
  omega

theorem KaBucket.Ok.conn {b : KaBucket} (h : b.Ok) {i : ℕ} (hi : i ∈ b.cache) :
    ∃ c, b.items.getD i none = some c := by
  obtain ⟨c, hc⟩ := (h.held i).1 hi
  exact ⟨c, by rw [List.getD_eq_getElem?_getD, hc]; rfl⟩

theorem kaBucketNew_ok (conf : RedisConf) (addr : Bytes) (fp : UInt32) (wantTls : Bool) :
    (kaBucketNew conf addr fp wantTls).Ok := by
  refine ⟨?_, rfl, List.length_replicate, fun i => ?_, nofun⟩
  · exact (List.reverse_perm _)
  · constructor
    · nofun
    · rintro ⟨c, hc⟩
      have hmem := List.mem_of_getElem? hc
      cases (List.mem_replicate.1 hmem).2

theorem kaBucketNew_conns (conf : RedisConf) (addr : Bytes) (fp : UInt32) (wantTls : Bool) :
    (kaBucketNew conf addr fp wantTls).conns = [] := rfl

/-- **A release keeps a bucket in order**, and gives up the connection of its slot. -/
theorem KaBucket.Ok.release {b : KaBucket} (h : b.Ok) {i : ℕ} {c : Conn} (hi : i ∈ b.cache)
    (hc : b.items.getD i none = some c) :
    (b.release i).Ok ∧ b.conns.Perm (c :: (b.release i).conns) := by
  have hnodup := h.nodup
  obtain ⟨hcache, hfree, hdisj⟩ := List.nodup_append.1 hnodup
  have herase : b.cache.Perm (i :: b.cache.erase i) := List.perm_cons_erase hi
  have hnot : i ∉ b.cache.erase i := hcache.not_mem_erase
  have hother : ∀ k ∈ b.cache.erase i,
      (b.items.set i none).getD k none = b.items.getD k none := by
    intro k hk
    have hne : i ≠ k := fun h => hnot (h ▸ hk)
    rw [List.getD_eq_getElem?_getD, List.getElem?_set_ne hne, ← List.getD_eq_getElem?_getD]
  have hconns : (b.release i).conns =
      (b.cache.erase i).filterMap fun k => b.items.getD k none :=
    List.filterMap_congr hother
  have hperm : b.conns.Perm (c :: (b.release i).conns) := by
    have hmap := herase.filterMap fun k => b.items.getD k none
    rw [List.filterMap_cons, hc] at hmap
    rw [hconns]
    exact hmap
  refine ⟨⟨?_, ?_, ?_, fun k => ?_, fun d hd => ?_⟩, hperm⟩
  · have hmove : (b.cache.erase i ++ i :: b.free).Perm (b.cache ++ b.free) :=
      List.perm_middle.trans ((herase.symm.append_right b.free))
    exact hmove.trans h.slots
  · show b.count - 1 = (b.cache.erase i).length
    rw [List.length_erase_of_mem hi, h.count]
  · show (b.items.set i none).length = b.max
    rw [List.length_set, h.items]
  · show k ∈ b.cache.erase i ↔ ∃ d, (b.items.set i none)[k]? = some (some d)
    by_cases hk : i = k
    · subst hk
      constructor
      · exact fun hm => absurd hm hnot
      · rintro ⟨d, hd⟩
        have hlt : i < b.items.length := by
          obtain ⟨c', hc'⟩ := (h.held i).1 hi
          exact (List.getElem?_eq_some_iff.1 hc').1
        rw [List.getElem?_set_self hlt] at hd
        cases hd
    · rw [List.getElem?_set_ne hk, List.mem_erase_of_ne (Ne.symm hk)]
      exact h.held k
  · exact h.ssl d (hperm.symm.subset (List.mem_cons_of_mem c hd))

/-- **A free slot takes a connection**, and the bucket stays in order. -/
theorem KaBucket.Ok.put {b : KaBucket} (h : b.Ok) {i : ℕ} {c : Conn} (hi : i ∈ b.free)
    (hc : c.ssl = b.tls) : (b.put i c).Ok ∧ (b.put i c).conns = c :: b.conns := by
  have hnodup := h.nodup
  obtain ⟨hcache, hfree, hdisj⟩ := List.nodup_append.1 hnodup
  have hnot : i ∉ b.cache := fun hm => hdisj i hm i hi rfl
  have hlt : i < b.items.length := by
    rw [h.items]
    exact List.mem_range.1 (h.slots.subset (List.mem_append_right _ hi))
  have hself : (b.items.set i (some c))[i]? = some (some c) := List.getElem?_set_self hlt
  have hother : ∀ k ∈ b.cache,
      (b.items.set i (some c)).getD k none = b.items.getD k none := by
    intro k hk
    have hne : i ≠ k := fun h => hnot (h ▸ hk)
    rw [List.getD_eq_getElem?_getD, List.getElem?_set_ne hne, ← List.getD_eq_getElem?_getD]
  have hconns : (b.put i c).conns = c :: b.conns := by
    show (i :: b.cache).filterMap (fun k => (b.items.set i (some c)).getD k none) = _
    have hread : (b.items.set i (some c)).getD i none = some c := by
      rw [List.getD_eq_getElem?_getD, hself]
      rfl
    rw [List.filterMap_cons, hread]
    exact congrArg (c :: ·) (List.filterMap_congr hother)
  refine ⟨⟨?_, ?_, ?_, fun k => ?_, fun d hd => ?_⟩, hconns⟩
  · have hmove : (i :: b.cache ++ b.free.erase i).Perm (b.cache ++ b.free) := by
      have hfront : (i :: (b.cache ++ b.free.erase i)).Perm (b.cache ++ i :: b.free.erase i) :=
        List.perm_middle.symm
      exact hfront.trans ((List.perm_cons_erase hi).symm.append_left b.cache)
    exact hmove.trans h.slots
  · show b.count + 1 = (i :: b.cache).length
    rw [List.length_cons, h.count]
  · show (b.items.set i (some c)).length = b.max
    rw [List.length_set, h.items]
  · show k ∈ i :: b.cache ↔ ∃ d, (b.items.set i (some c))[k]? = some (some d)
    by_cases hk : i = k
    · subst hk
      exact ⟨fun _ => ⟨c, hself⟩, fun _ => List.mem_cons_self⟩
    · rw [List.getElem?_set_ne hk, ← h.held k, List.mem_cons]
      exact ⟨fun hm => hm.resolve_left (Ne.symm hk), Or.inr⟩
  · rw [hconns] at hd
    rcases List.mem_cons.1 hd with rfl | hd
    · exact hc
    · exact h.ssl d hd

/-- **A bucket that is found has the profile that was asked for.** -/
theorem kaBucketEq_profile {b : KaBucket} {conf : RedisConf} {fp : UInt32} {wantTls : Bool}
    (h : kaBucketEq b conf conf.sockaddr fp wantTls = true) (htls : wantTls = conf.tls) :
    b.profile = conf.profile ∧ b.tls = wantTls := by
  simp only [kaBucketEq, Bool.and_eq_true, beq_iff_eq] at h
  obtain ⟨⟨⟨⟨⟨⟨⟨⟨⟨-, h1⟩, h2⟩, h3⟩, h4⟩, h5⟩, h6⟩, h7⟩, h8⟩, h9⟩ := h
  refine ⟨?_, h1⟩
  rw [KaBucket.profile, RedisConf.profile, h1, h2, h3, h4, h5, h6, h7, h8, h9, htls]

/-! ## The pool -/

/-- The connections of the pool. -/
def poolConns (ka : List KaBucket) : List Conn := ka.flatMap KaBucket.conns

/-- **A pool in order**: its buckets are, and there are not too many. -/
structure KaOk (ka : List KaBucket) : Prop where
  buckets : ∀ b ∈ ka, b.Ok
  few : ka.length ≤ kaMaxBuckets

/-- Another bucket in the place of one changes the connections of that place only. -/
theorem poolConns_set {ka : List KaBucket} {i : ℕ} {b : KaBucket} (h : ka[i]? = some b) :
    ∃ rest, (poolConns ka).Perm (b.conns ++ rest) ∧
      ∀ b', (poolConns (ka.set i b')).Perm (b'.conns ++ rest) := by
  obtain ⟨hi, rfl⟩ := List.getElem?_eq_some_iff.1 h
  refine ⟨poolConns (ka.take i) ++ poolConns (ka.drop (i + 1)), ?_, fun b' => ?_⟩
  · have hsplit : ka = ka.take i ++ ka[i] :: ka.drop (i + 1) := by
      rw [List.getElem_cons_drop, List.take_append_drop]
    have hconns : poolConns ka = poolConns (ka.take i) ++
        (ka[i].conns ++ poolConns (ka.drop (i + 1))) := by
      conv_lhs => rw [hsplit]
      rw [poolConns, List.flatMap_append, List.flatMap_cons]
      rfl
    rw [hconns]
    exact List.perm_append_comm_assoc ..
  · have hconns : poolConns (ka.set i b') = poolConns (ka.take i) ++
        (b'.conns ++ poolConns (ka.drop (i + 1))) := by
      rw [List.set_eq_take_append_cons_drop, if_pos hi, poolConns, List.flatMap_append,
        List.flatMap_cons]
      rfl
    rw [hconns]
    exact List.perm_append_comm_assoc ..

theorem KaOk.set {ka : List KaBucket} (h : KaOk ka) {i : ℕ} {b : KaBucket} (hb : b.Ok) :
    KaOk (ka.set i b) := by
  refine ⟨fun x hx => ?_, ?_⟩
  · rcases List.mem_or_eq_of_mem_set hx with hx | rfl
    · exact h.buckets x hx
    · exact hb
  · rw [List.length_set]
    exact h.few

/-- **Where a bucket is looked up**: the pool holds what it held, and the bucket that is
found has the profile, with the TLS setting that was asked for. -/
theorem kaBucket_spec {ka : List KaBucket} (h : KaOk ka) (conf : RedisConf) (fp : UInt32)
    {wantTls : Bool} (htls : wantTls = conf.tls) (create room : Bool) :
    let r := kaBucket ka conf conf.sockaddr fp wantTls create room
    KaOk r.1 ∧ poolConns r.1 = poolConns ka ∧ (∀ b ∈ r.1, b ∈ ka ∨ b.conns = []) ∧
      ∀ i, r.2 = some i → ∃ b, r.1[i]? = some b ∧ b.Ok ∧ b.profile = conf.profile ∧
        b.tls = wantTls := by
  unfold kaBucket
  by_cases hkeep : conf.keepalive ≤ 0
  · rw [if_pos hkeep]
    exact ⟨h, rfl, fun b hb => Or.inl hb, nofun⟩
  rw [if_neg hkeep]
  rcases hfind : ka.findIdx? fun b => kaBucketEq b conf conf.sockaddr fp wantTls with _ | i
  · dsimp only
    by_cases hcreate : create = true
    · rw [if_neg (by simp [hcreate])]
      by_cases hmany : ka.length ≥ kaMaxBuckets
      · rw [if_pos hmany]
        exact ⟨h, rfl, fun b hb => Or.inl hb, nofun⟩
      rw [if_neg hmany]
      by_cases hroom : room = true
      · rw [if_neg (by simp [hroom])]
        have hnew := kaBucketNew_ok conf conf.sockaddr fp wantTls
        refine ⟨⟨fun b hb => ?_, ?_⟩, ?_, fun b hb => ?_, fun i hi => ?_⟩
        · rcases List.mem_append.1 hb with hb | hb
          · exact h.buckets b hb
          · obtain rfl := List.mem_singleton.1 hb
            exact hnew
        · rw [List.length_append, List.length_singleton]
          omega
        · show poolConns (ka ++ [_]) = poolConns ka
          rw [poolConns, List.flatMap_append, List.flatMap_singleton, kaBucketNew_conns,
            List.append_nil]
          rfl
        · rcases List.mem_append.1 hb with hb | hb
          · exact Or.inl hb
          · obtain rfl := List.mem_singleton.1 hb
            exact Or.inr rfl
        · obtain rfl := Option.some.inj hi
          refine ⟨_, List.getElem?_concat_length, hnew, ?_, rfl⟩
          subst htls
          rfl
      · rw [if_pos (by simp [hroom])]
        exact ⟨h, rfl, fun b hb => Or.inl hb, nofun⟩
    · rw [if_pos (by simp [hcreate])]
      exact ⟨h, rfl, fun b hb => Or.inl hb, nofun⟩
  · dsimp only
    refine ⟨h, rfl, fun b hb => Or.inl hb, fun j hj => ?_⟩
    obtain rfl := Option.some.inj hj
    obtain ⟨hlt, heq, -⟩ := List.findIdx?_eq_some_iff_getElem.1 hfind
    obtain ⟨hprofile, hb⟩ := kaBucketEq_profile heq htls
    exact ⟨ka[i], List.getElem?_eq_getElem hlt, h.buckets _ (List.getElem_mem hlt), hprofile, hb⟩

/-- **Connections are filed under the profile they were opened under.** -/
def Filed (opened : ℕ → Profile) (ka : List KaBucket) : Prop :=
  ∀ b ∈ ka, ∀ c ∈ b.conns, opened c.id = b.profile

theorem Filed.set {opened : ℕ → Profile} {ka : List KaBucket} (h : Filed opened ka) (i : ℕ)
    {b : KaBucket} (hb : ∀ c ∈ b.conns, opened c.id = b.profile) :
    Filed opened (ka.set i b) := by
  intro x hx
  rcases List.mem_or_eq_of_mem_set hx with hx | rfl
  · exact h x hx
  · exact hb

/-- **A connection leaves a bucket in order.** -/
theorem KaOk.release {ka : List KaBucket} (h : KaOk ka) {opened : ℕ → Profile}
    (hfiled : Filed opened ka) {i j : ℕ} {b : KaBucket} (hb : ka[i]? = some b)
    (hj : j ∈ b.cache) :
    ∃ c, b.items.getD j none = some c ∧ c ∈ b.conns ∧ KaOk (ka.set i (b.release j)) ∧
      Filed opened (ka.set i (b.release j)) ∧
        (poolConns ka).Perm (c :: poolConns (ka.set i (b.release j))) := by
  have hok := h.buckets b (List.mem_of_getElem? hb)
  obtain ⟨c, hc⟩ := hok.conn hj
  obtain ⟨hrelease, hperm⟩ := hok.release hj hc
  obtain ⟨rest, hbefore, hafter⟩ := poolConns_set hb
  have hmem : c ∈ b.conns := hperm.symm.subset List.mem_cons_self
  refine ⟨c, hc, hmem, h.set hrelease, hfiled.set i fun d hd => ?_, ?_⟩
  · exact hfiled b (List.mem_of_getElem? hb) d (hperm.symm.subset (List.mem_cons_of_mem c hd))
  · have hmoved : (b.conns ++ rest).Perm (c :: ((b.release j).conns ++ rest)) :=
      hperm.append_right rest
    exact hbefore.trans (hmoved.trans ((hafter _).symm.cons c))

/-- **A connection that is reused** comes from a bucket of the operation's own profile. -/
theorem kaGet_spec (crc : Bytes → UInt32) {ka : List KaBucket} (h : KaOk ka)
    {opened : ℕ → Profile} (hfiled : Filed opened ka) (conf : RedisConf) :
    let r := kaGet crc ka conf
    r = (ka, none) ∨ ∃ c, r.2 = some c ∧ opened c.id = conf.profile ∧ c.ssl = conf.tls ∧
      KaOk r.1 ∧ Filed opened r.1 ∧ (poolConns ka).Perm (c :: poolConns r.1) := by
  have hsame : (kaBucket ka conf conf.sockaddr (kaFp crc conf) conf.tls false true).1 = ka := by
    unfold kaBucket
    by_cases hkeep : conf.keepalive ≤ 0
    · rw [if_pos hkeep]
    · rw [if_neg hkeep]
      rcases ka.findIdx? fun b => kaBucketEq b conf conf.sockaddr (kaFp crc conf) conf.tls with _ | i
      · rfl
      · rfl
  obtain ⟨-, -, -, hfound⟩ := kaBucket_spec h conf (kaFp crc conf) rfl false true
  unfold kaGet
  rcases hbucket : kaBucket ka conf conf.sockaddr (kaFp crc conf) conf.tls false true with
    ⟨ka', _ | i⟩
  · rw [hbucket] at hsame
    subst hsame
    exact Or.inl rfl
  · rw [hbucket] at hsame hfound
    subst hsame
    obtain ⟨b, hb, hok, hprofile, htls⟩ := hfound i rfl
    dsimp only at hb ⊢
    rw [hb]
    dsimp only
    rcases hcache : b.cache with _ | ⟨j, cs⟩
    · exact Or.inl rfl
    · right
      have hj : j ∈ b.cache := by
        rw [hcache]
        exact List.mem_cons_self
      obtain ⟨c, hc, hmem, hka, hfile, hperm⟩ := h.release hfiled hb hj
      refine ⟨c, hc, ?_, ?_, hka, hfile, hperm⟩
      · rw [hfiled b (List.mem_of_getElem? hb) c hmem, hprofile]
      · rw [hok.ssl c hmem, htls]

/-- A cached slot gives its connection up, and it is closed. -/
theorem kaDrop_spec {ka : List KaBucket} (h : KaOk ka) {opened : ℕ → Profile}
    (hfiled : Filed opened ka) {i j : ℕ} {b : KaBucket} (hb : ka[i]? = some b)
    (hj : j ∈ b.cache) :
    let r := kaDrop ka i j
    ∃ c, r.2 = some c ∧ KaOk r.1 ∧ Filed opened r.1 ∧ (poolConns ka).Perm (c :: poolConns r.1) := by
  obtain ⟨c, hc, -, hka, hfile, hperm⟩ := h.release hfiled hb hj
  unfold kaDrop
  rw [hb]
  exact ⟨c, hc, hka, hfile, hperm⟩

/-- **A connection that is saved** goes into a bucket of its own profile, or the pool holds what
it held before. -/
theorem kaSave_spec (crc : Bytes → UInt32) {ka : List KaBucket} (h : KaOk ka)
    {opened : ℕ → Profile} (hfiled : Filed opened ka) {conf : RedisConf} {c : Conn}
    (hopened : opened c.id = conf.profile) {clean : Bool}
    (hssl : clean = true → c.ssl = conf.tls) (env : SaveEnv) :
    let r := kaSave crc ka conf c clean env
    KaOk r.1 ∧ Filed opened r.1 ∧
      ((r.2 = some true ∧ (poolConns r.1).Perm (c :: poolConns ka)) ∨
        (r.2 ≠ some true ∧ (poolConns r.1).Perm (poolConns ka))) := by
  have hkept : ∀ {ka' : List KaBucket} {o : Option Bool}, o ≠ some true → KaOk ka' →
      Filed opened ka' → poolConns ka' = poolConns ka →
        KaOk ka' ∧ Filed opened ka' ∧ ((o = some true ∧ (poolConns ka').Perm (c :: poolConns ka)) ∨
          (o ≠ some true ∧ (poolConns ka').Perm (poolConns ka))) := by
    intro ka' o ho hka hfile hconns
    exact ⟨hka, hfile, Or.inr ⟨ho, List.Perm.of_eq hconns⟩⟩
  unfold kaSave
  by_cases hclean : clean = true
  · rw [if_neg (by simp [hclean])]
    by_cases hfailed : env.failed = true
    · rw [if_pos hfailed]
      exact hkept nofun h hfiled rfl
    rw [if_neg hfailed]
    obtain ⟨hka, hconns, hnew, hfound⟩ :=
      kaBucket_spec h conf (kaFp crc conf) (hssl hclean) true env.room
    rcases hbucket : kaBucket ka conf conf.sockaddr (kaFp crc conf) c.ssl true env.room with
      ⟨ka', _ | i⟩
    all_goals
      rw [hbucket] at hka hconns hnew
      have hfile : Filed opened ka' := fun b hb => by
        rcases hnew b hb with hold | hempty
        · exact hfiled b hold
        · rw [hempty]
          exact nofun
    · exact hkept nofun hka hfile hconns
    · rw [hbucket] at hfound
      obtain ⟨b, hb, hok, hprofile, htls⟩ := hfound i rfl
      dsimp only at hb hka hconns ⊢
      rw [hb]
      dsimp only
      by_cases hfull : b.count ≥ b.max
      · rw [if_pos hfull]
        exact hkept nofun hka hfile hconns
      rw [if_neg hfull]
      rcases hfree : b.free with _ | ⟨j, fs⟩
      · exact hkept nofun hka hfile hconns
      · dsimp only
        by_cases hsilent : env.silent = true
        · rw [if_neg (by simp [hsilent])]
          have hj : j ∈ b.free := by
            rw [hfree]
            exact List.mem_cons_self
          obtain ⟨hput, hputConns⟩ := hok.put hj htls.symm
          obtain ⟨rest, hbefore, hafter⟩ := poolConns_set hb
          have hkaPut : KaOk (ka'.set i (b.put j c)) := hka.set hput
          have hfilePut : Filed opened (ka'.set i (b.put j c)) := hfile.set i fun d hd => by
            rw [hputConns] at hd
            rcases List.mem_cons.1 hd with rfl | hd
            · exact hopened.trans hprofile.symm
            · exact hfile b (List.mem_of_getElem? hb) d hd
          have hpermPut : (poolConns (ka'.set i (b.put j c))).Perm (c :: poolConns ka) := by
            have hgrown := hafter (b.put j c)
            rw [hputConns] at hgrown
            rw [← hconns]
            exact hgrown.trans (hbefore.symm.cons c)
          by_cases harmed : env.armed = true
          · rw [if_pos harmed]
            exact ⟨hkaPut, hfilePut, Or.inl ⟨rfl, hpermPut⟩⟩
          · rw [if_neg harmed]
            have hat : (ka'.set i (b.put j c))[i]? = some (b.put j c) :=
              List.getElem?_set_self (List.getElem?_eq_some_iff.1 hb).1
            obtain ⟨d, hd, hkaDrop, hfileDrop, hpermDrop⟩ :=
              kaDrop_spec hkaPut hfilePut hat (List.mem_cons_self : j ∈ (b.put j c).cache)
            -- the slot that is dropped is the one that was just filled
            have hsame : d = c := by
              have hread : (b.put j c).items.getD j none = some c := by
                have hlt : j < b.items.length := by
                  rw [hok.items]
                  exact List.mem_range.1 (hok.slots.subset (List.mem_append_right _ hj))
                show (b.items.set j (some c)).getD j none = some c
                rw [List.getD_eq_getElem?_getD, List.getElem?_set_self hlt]
                rfl
              unfold kaDrop at hd
              rw [hat] at hd
              exact Option.some.inj (hd.symm.trans hread)
            subst hsame
            exact ⟨hkaDrop, hfileDrop, Or.inr ⟨nofun,
              List.Perm.cons_inv (hpermDrop.symm.trans hpermPut)⟩⟩
        · rw [if_pos (by simp [hsilent])]
          exact hkept nofun hka hfile hconns
  · rw [if_pos (by simp [hclean])]
    exact hkept nofun h hfiled rfl

end L2
end CacheTurbo
