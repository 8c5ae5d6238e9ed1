/-
# What a pass uses a reply for

A pass of the access handler uses the reply that is in the context in five ways: it takes the
marker from it, drops the zone's marker because of it, remembers a miss, promotes and serves
a response, or keeps one for an outage.  Each time the key is `markerHash` where the reply is
read as the marker's (`Ctx.takesMarker`), and else the key that the zone resolves to: both are
decided anew in the pass, and neither by the `GET` that was sent.

`handler_uses` says so for a whole pass, and what is left of the reply when the pass is over.
The phases that use no reply have one relation in common (`Quiet`).
-/

import CacheTurbo.Http.Access

namespace CacheTurbo
namespace Http
namespace Access

open Bytes Blob
open Shm (Zone Rbtree BlobId L1Req L1Verdict)

/-! ## Uses -/

/-- The key under which the blob of a reply is used. -/
def Deed.blobUse : Deed → Option KeyHash
  | .resolved k _ _ | .promoted k _ | .armed k _ => some k
  | .asked _ | .skipped _ | .dropped _ | .memo _ => none

/-- The key under which a reply is used that says there is nothing. -/
def Deed.resultUse : Deed → Option KeyHash
  | .memo k | .dropped k => some k
  | .asked _ | .skipped _ | .resolved _ _ _ | .promoted _ _ | .armed _ _ => none

/-- The reply is a blob. -/
structure Ctx.HasBlob (c : Ctx) : Prop where
  done : c.l2Done = true
  result : c.l2Result = .ok
  blob : c.l2Blob ≠ none

/-- The reply says that there is nothing, and is not accounted for. -/
structure Ctx.HasMiss (c : Ctx) : Prop where
  done : c.l2Done = true
  result : c.l2Result = .declined
  skipped : c.l2NegSkipped = false
  counted : c.l2MissCounted = false

/-- The context `c'` has the key, the reply and the flags that `c` has. -/
structure Ctx.Same (c c' : Ctx) : Prop where
  key : c'.keyHash = c.keyHash
  gen : c'.varyGen = c.varyGen
  l1Miss : c'.markerL1Miss = c.markerL1Miss
  tried : c'.markerL2Tried = c.markerL2Tried
  inflight : c'.markerRevalidateInflight = c.markerRevalidateInflight
  done : c'.l2Done = c.l2Done
  result : c'.l2Result = c.l2Result
  blob : c'.l2Blob = c.l2Blob
  skipped : c'.l2NegSkipped = c.l2NegSkipped
  counted : c'.l2MissCounted = c.l2MissCounted

/-- The key of a body from the second level. -/
def Body.l2Key : Body → Option KeyHash
  | .zone _ _ => none
  | .l2 k _ => some k

/-- The keys of the snapshots from the second level that a context holds. -/
def Ctx.snapKeys (c : Ctx) : List KeyHash :=
  (c.brkSnap.bind Body.l2Key).toList ++ (c.sieSnap.bind Body.l2Key).toList

/-- The keys of the bodies from the second level that the end of a pass gives to the client, or
takes along to the origin. -/
def End.l2Keys (c : Ctx) : End → List KeyHash
  | .served body _ => (body.bind Body.l2Key).toList
  | .origin _ => (c.sieSnap.bind Body.l2Key).toList
  | .parked _ | .gatewayTimeout | .unavailable | .error => []

/-- The pass ends with a `GET` on its way. -/
def End.asks : End → Bool
  | .parked .markerGet | .parked .objectGet => true
  | .parked .lock | .parked .timer | .served _ _ | .origin _ | .gatewayTimeout
  | .unavailable | .error => false

theorem mem_snapKeys {c : Ctx} {k : KeyHash} : k ∈ c.snapKeys ↔
    k ∈ c.brkSnap.bind Body.l2Key ∨ k ∈ c.sieSnap.bind Body.l2Key := by
  rw [Ctx.snapKeys, List.mem_append, Option.mem_toList, Option.mem_toList]
  rfl

/-! ## Phases that use no reply -/

/-- A part of a pass that uses no reply and keeps the key: the reply stays, or is put away. -/
structure Still (p p' : Pass) : Prop where
  deeds : p'.deeds = p.deeds
  key : p'.ctx.keyHash = p.ctx.keyHash
  snaps : ∀ k ∈ p'.ctx.snapKeys, k ∈ p.ctx.snapKeys
  reply : p'.ctx.l2Done = true → p.ctx.l2Done = true ∧ p'.ctx.l2Result = p.ctx.l2Result ∧
    p'.ctx.l2NegSkipped = p.ctx.l2NegSkipped ∧ p'.ctx.l2MissCounted = p.ctx.l2MissCounted
  blob : ∀ b, p'.ctx.l2Blob = some b → p.ctx.l2Blob = some b

/-- Such a part that leaves the flags of the marker's `GET` as they are. -/
structure Quiet (p p' : Pass) : Prop extends Still p p' where
  tried : p'.ctx.markerL2Tried = p.ctx.markerL2Tried
  inflight : p'.ctx.markerRevalidateInflight = p.ctx.markerRevalidateInflight

/-- Such a part that may end the pass. -/
structure StepQuiet (p : Pass) (s : Step) : Prop where
  quiet : Quiet p s.1
  keys : ∀ e ∈ s.2, ∀ k ∈ e.l2Keys s.1.ctx, k ∈ p.ctx.snapKeys ∨ k = s.1.ctx.keyHash
  asks : ∀ e ∈ s.2, e.asks = false

theorem Still.refl (p : Pass) : Still p p :=
  ⟨rfl, rfl, fun _ hk => hk, fun hd => ⟨hd, rfl, rfl, rfl⟩, fun _ hb => hb⟩

theorem Quiet.refl (p : Pass) : Quiet p p :=
  ⟨Still.refl p, rfl, rfl⟩

theorem Still.trans {p q t : Pass} (h : Still p q) (h' : Still q t) : Still p t where
  deeds := h'.deeds.trans h.deeds
  key := h'.key.trans h.key
  snaps := fun k hk => h.snaps k (h'.snaps k hk)
  reply := fun hd => by
    obtain ⟨hd', hresult, hskipped, hcounted⟩ := h'.reply hd
    obtain ⟨hd'', hresult', hskipped', hcounted'⟩ := h.reply hd'
    exact ⟨hd'', hresult.trans hresult', hskipped.trans hskipped', hcounted.trans hcounted'⟩
  blob := fun b hb => h.blob b (h'.blob b hb)

theorem Quiet.trans {p q t : Pass} (h : Quiet p q) (h' : Quiet q t) : Quiet p t :=
  ⟨h.toStill.trans h'.toStill, h'.tried.trans h.tried, h'.inflight.trans h.inflight⟩

/-- Only the zone and the references change. -/
theorem Quiet.of_ctx {p p' : Pass} (hctx : p'.ctx = p.ctx) (hdeeds : p'.deeds = p.deeds) :
    Quiet p p' := by
  refine ⟨⟨hdeeds, ?_, ?_, ?_, ?_⟩, ?_, ?_⟩ <;> rw [hctx]
  · exact fun _ hk => hk
  · exact fun hd => ⟨hd, rfl, rfl, rfl⟩
  · exact fun _ hb => hb

theorem Quiet.setZone (p : Pass) (z : Zone) : Quiet p (p.setZone z) := Quiet.of_ctx rfl rfl

theorem Quiet.release (p : Pass) (b : BlobId) : Quiet p (p.release b) := Quiet.of_ctx rfl rfl

theorem Quiet.meanwhile (rb : Rbtree) (env : Env) (gap : Gap) (p : Pass) :
    Quiet p (p.meanwhile rb env gap) :=
  Quiet.of_ctx rfl rfl

/-- Only fields are changed that none of this reads. -/
theorem Still.setCtx (p : Pass) (f : Ctx → Ctx) (hkey : (f p.ctx).keyHash = p.ctx.keyHash)
    (hdone : (f p.ctx).l2Done = p.ctx.l2Done) (hresult : (f p.ctx).l2Result = p.ctx.l2Result)
    (hskipped : (f p.ctx).l2NegSkipped = p.ctx.l2NegSkipped)
    (hcounted : (f p.ctx).l2MissCounted = p.ctx.l2MissCounted)
    (hblob : (f p.ctx).l2Blob = p.ctx.l2Blob)
    (hsnaps : ∀ k ∈ (f p.ctx).snapKeys, k ∈ p.ctx.snapKeys) : Still p (p.setCtx f) :=
  ⟨rfl, hkey, hsnaps, fun hd => ⟨hdone.symm.trans hd, hresult, hskipped, hcounted⟩,
    fun _ hb => hblob.symm.trans hb⟩

/-- The same, and the flags of the marker's `GET` stay. -/
theorem Quiet.setCtx (p : Pass) (f : Ctx → Ctx) (hkey : (f p.ctx).keyHash = p.ctx.keyHash)
    (hdone : (f p.ctx).l2Done = p.ctx.l2Done) (hresult : (f p.ctx).l2Result = p.ctx.l2Result)
    (hskipped : (f p.ctx).l2NegSkipped = p.ctx.l2NegSkipped)
    (hcounted : (f p.ctx).l2MissCounted = p.ctx.l2MissCounted)
    (hblob : (f p.ctx).l2Blob = p.ctx.l2Blob)
    (htried : (f p.ctx).markerL2Tried = p.ctx.markerL2Tried)
    (hinflight : (f p.ctx).markerRevalidateInflight = p.ctx.markerRevalidateInflight)
    (hsnaps : ∀ k ∈ (f p.ctx).snapKeys, k ∈ p.ctx.snapKeys) : Quiet p (p.setCtx f) :=
  ⟨Still.setCtx p f hkey hdone hresult hskipped hcounted hblob hsnaps, htried, hinflight⟩

/-- The pass goes on. -/
theorem Quiet.goesOn {p p' : Pass} (h : Quiet p p') : StepQuiet p (p', none) :=
  ⟨h, nofun, nofun⟩

/-- The pass ends with no body of the second level. -/
theorem Quiet.ends {p p' : Pass} (h : Quiet p p') {e : End} (hkeys : e.l2Keys p'.ctx = [])
    (hasks : e.asks = false) : StepQuiet p (p', some e) where
  quiet := h
  keys := fun e' he' k hk => by
    obtain rfl := Option.some.inj (Option.mem_def.1 he')
    rw [hkeys] at hk
    cases hk
  asks := fun e' he' => by
    obtain rfl := Option.some.inj (Option.mem_def.1 he')
    exact hasks

/-- The pass ends at the origin, with the snapshot for its errors. -/
theorem Quiet.origin {p p' : Pass} (h : Quiet p p') (miss : Miss) :
    StepQuiet p (p', some (.origin miss)) where
  quiet := h
  keys := fun e he k hk => by
    obtain rfl := Option.some.inj (Option.mem_def.1 he)
    exact Or.inl (h.snaps k (mem_snapKeys.2 (Or.inr (Option.mem_toList.1 hk))))
  asks := fun e he => by
    obtain rfl := Option.some.inj (Option.mem_def.1 he)
    rfl

theorem StepQuiet.not_markerGet {p : Pass} {s : Step} (h : StepQuiet p s) {e : End}
    (he : e ∈ s.2) : e ≠ .parked .markerGet := by
  rintro rfl
  exact absurd (h.asks _ he) nofun

theorem StepQuiet.andThen {p : Pass} {s : Step} (h : StepQuiet p s) {next : Pass → Step}
    (hnext : ∀ q, Quiet p q → StepQuiet q (next q)) : StepQuiet p (s.andThen next) := by
  obtain ⟨q, e⟩ := s
  cases e with
  | some e => exact h
  | none =>
    have hq := hnext q h.quiet
    exact ⟨h.quiet.trans hq.quiet,
      fun e he k hk => (hq.keys e he k hk).imp_left (h.quiet.snaps k), hq.asks⟩

/-- A part of the pass before it. -/
theorem Quiet.after {p q : Pass} (h : Quiet p q) {s : Step} (hs : StepQuiet q s) :
    StepQuiet p s :=
  ⟨h.trans hs.quiet, fun e he k hk => (hs.keys e he k hk).imp_left (h.snaps k), hs.asks⟩

section Phases

variable (rb : Rbtree) (crc : KeyHash → UInt32) (conf : Conf) (r : Request) (env : Env)

/-- A body of the second level that is served is a snapshot, or has the key of the pass. -/
theorem quiet_serve {p q : Pass} (h : Quiet p q) {ref : Option BlobId} {body : Option Body}
    {stale : Bool} {reason : ServeReason}
    (hbody : ∀ k ∈ body.bind Body.l2Key, k ∈ q.ctx.snapKeys ∨ k = q.ctx.keyHash) :
    StepQuiet p (serve r env ref body stale reason q) := by
  have hunref : Quiet p (q.unref ref) := by
    cases ref with
    | some b => exact h.trans (Quiet.release q b)
    | none => exact h
  unfold serve
  dsimp only
  split
  · refine ⟨h, fun e he k hk => ?_, fun e he => ?_⟩
    · obtain rfl := Option.some.inj (Option.mem_def.1 he)
      exact (hbody k (Option.mem_toList.1 hk)).imp_left (h.snaps k)
    · obtain rfl := Option.some.inj (Option.mem_def.1 he)
      rfl
  · exact hunref.origin _
  · refine Quiet.ends ?_ rfl rfl
    split_ifs
    · exact h
    · exact hunref

/-- A body of the zone. -/
theorem quiet_serve_zone {p q : Pass} (h : Quiet p q) (body : Option BlobId)
    {ref : Option BlobId} {keyHash : KeyHash} {stale : Bool} {reason : ServeReason} :
    StepQuiet p (serve r env ref (body.map (.zone keyHash)) stale reason q) :=
  quiet_serve r env h fun k hk => by cases body <;> cases hk

theorem quiet_onlyIfCached (p : Pass) : StepQuiet p (onlyIfCached conf r env p) := by
  unfold onlyIfCached
  split_ifs
  · exact quiet_serve r env (Quiet.refl p) fun k hk => Or.inl (mem_snapKeys.2 (Or.inl hk))
  · exact (Quiet.refl p).ends rfl rfl
  · exact (Quiet.refl p).goesOn

theorem quiet_breakerConsult (p : Pass) : Quiet p (breakerConsult env p).1 := by
  unfold breakerConsult
  split
  · exact Quiet.refl p
  · dsimp only
    exact (Quiet.setZone p _).trans (Quiet.setCtx _ _ rfl rfl rfl rfl rfl rfl rfl rfl fun _ hk => hk)

/-- The snapshot of the breaker is dropped. -/
theorem quiet_brkRefDrop (p : Pass) : Quiet p (brkRefDrop p) := by
  have hdrop : ∀ q : Pass, Quiet q (q.setCtx ({ · with brkSnap := none })) := fun q =>
    Quiet.setCtx _ _ rfl rfl rfl rfl rfl rfl rfl rfl fun _ hk =>
      mem_snapKeys.2 (Or.inr ((mem_snapKeys.1 hk).resolve_left nofun))
  unfold brkRefDrop
  dsimp only
  split
  · exact (Quiet.release p _).trans (hdrop _)
  · exact hdrop p
  · exact hdrop p

theorem quiet_breakerGate (p : Pass) : StepQuiet p (breakerGate conf r env p) := by
  have hconsult := quiet_breakerConsult env p
  unfold breakerGate
  split_ifs
  · rcases hc : breakerConsult env p with ⟨q, action⟩
    rw [hc] at hconsult
    cases action with
    | probe => exact (hconsult.trans (quiet_brkRefDrop q)).origin _
    | pass => exact (hconsult.trans (quiet_brkRefDrop q)).goesOn
    | serve => exact quiet_serve r env hconsult fun k hk => Or.inl (mem_snapKeys.2 (Or.inl hk))
    | fail => exact hconsult.ends rfl rfl
  · exact (Quiet.refl p).goesOn

theorem quiet_minUses (p : Pass) : StepQuiet p (minUses rb conf env p) := by
  unfold minUses
  dsimp only
  split_ifs
  · exact ((Quiet.setZone p _).trans
      (Quiet.setCtx _ _ rfl rfl rfl rfl rfl rfl rfl rfl fun _ hk => hk)).origin _
  · exact ((Quiet.setZone p _).trans
      (Quiet.setCtx _ _ rfl rfl rfl rfl rfl rfl rfl rfl fun _ hk => hk)).goesOn
  · exact (Quiet.refl p).goesOn

theorem quiet_coldMarkWinner (owner : ℕ) (p : Pass) : Quiet p (coldMarkWinner env owner p) := by
  unfold coldMarkWinner
  split_ifs
  · exact Quiet.refl p
  · exact Quiet.setCtx _ _ rfl rfl rfl rfl rfl rfl rfl rfl fun _ hk => hk

theorem quiet_coldWait (p : Pass) : StepQuiet p (coldWait r env p) := by
  have hwaits : ∀ w, Quiet p (p.setCtx ({ · with waiting := w })) := fun w =>
    Quiet.setCtx _ _ rfl rfl rfl rfl rfl rfl rfl rfl fun _ hk => hk
  have hover : Quiet p ((p.setCtx ({ · with waiting := true })).setCtx
      ({ · with waiting := false })) := hwaits false
  have hreset : Quiet p ((p.setCtx ({ · with waiting := true })).setCtx ({ · with
      l2Done := false, l2NegSkipped := false, l2NegForce := true, l2Result := .error,
      l2Blob := none })) :=
    ⟨⟨rfl, rfl, fun k hk => hk, nofun, nofun⟩, rfl, rfl⟩
  unfold coldWait
  dsimp only
  split_ifs
  · exact hover.origin _
  · split
    · rename_i snap hsnap
      refine quiet_serve r env hover fun k hk => Or.inl (mem_snapKeys.2 (Or.inr ?_))
      rw [← hsnap] at hk
      exact hk
    · exact hover.origin _
  · exact hreset.ends rfl rfl
  · exact (hreset.trans (Quiet.setCtx _ ({ · with waitCleanup := true, waitPolled := true })
      rfl rfl rfl rfl rfl rfl rfl rfl fun _ hk => hk)).ends rfl rfl

theorem quiet_coldResumeLocked (p : Pass) : StepQuiet p (coldResumeLocked r env p) := by
  unfold coldResumeLocked
  split_ifs
  · exact (quiet_coldMarkWinner env _ p).origin _
  · exact quiet_coldWait r env p

theorem quiet_coldAdoptOwnStub {p q : Pass} (h : coldAdoptOwnStub p = some q) : Quiet p q := by
  obtain ⟨t, -, rfl⟩ := Option.map_eq_some_iff.1 h
  exact ⟨⟨rfl, rfl, fun _ hk => hk, fun hd => ⟨hd, rfl, rfl, rfl⟩, fun _ hb => hb⟩, rfl, rfl⟩

theorem quiet_lock (p : Pass) : Quiet p (lock conf env p).1 := by
  unfold lock
  split_ifs
  · exact Quiet.setCtx _ ({ · with lockOwnerRand := env.lockRand }) rfl rfl rfl rfl rfl rfl rfl
      rfl fun _ hk => hk
  · exact Quiet.refl p

theorem quiet_coldClaimed (answer : Shm.ClaimAnswer) (p : Pass) :
    StepQuiet p (coldClaimed conf r env answer p) := by
  have hlock := quiet_lock conf env p
  unfold coldClaimed
  split_ifs
  · split
    · rename_i q hq
      exact (quiet_coldAdoptOwnStub hq).origin _
    · exact quiet_coldWait r env p
  · rcases hl : lock conf env p with ⟨q, sent⟩
    rw [hl] at hlock
    cases sent with
    | true => exact hlock.ends rfl rfl
    | false => exact (hlock.trans (quiet_coldMarkWinner env _ q)).origin _

theorem quiet_coldRaced (p : Pass) : StepQuiet p (coldRaced r env p) := by
  unfold coldRaced
  split_ifs
  · exact (Quiet.refl p).origin _
  · split
    · exact (Quiet.refl p).origin _
    · rename_i body _
      have hpinned : Quiet p ((p.setZone (Shm.blobAcquire p.zone body)).pin [body]) :=
        Quiet.of_ctx rfl rfl
      exact quiet_serve_zone r env hpinned (some body)

theorem quiet_coldFresh (fresh : Option BlobId) (p : Pass) :
    StepQuiet p (coldFresh r env fresh p) := by
  unfold coldFresh
  split
  · exact (Quiet.refl p).origin _
  · split_ifs
    · exact (Quiet.release p _).origin _
    · exact quiet_serve_zone r env (Quiet.refl p) (some _)

theorem quiet_cold (p : Pass) : StepQuiet p (cold rb conf r env p) := by
  unfold cold
  dsimp only
  have hclaimed : ∀ z answer, Quiet p ((p.setZone z).grant answer) := fun z answer =>
    Quiet.of_ctx rfl rfl
  have hpinned : ∀ z bs answer, Quiet p (((p.setZone z).pin bs).grant answer) :=
    fun z bs answer => Quiet.of_ctx rfl rfl
  have hpassed : ∀ z bs answer, Quiet p ((((p.setZone z).pin bs).grant answer).setCtx ({ · with
      minUsesPassed := true })) := fun z bs answer =>
    (hpinned z bs answer).trans (Quiet.setCtx _ _ rfl rfl rfl rfl rfl rfl rfl rfl fun _ hk => hk)
  have howner : ∀ (q : Pass) (owner : ℕ), Quiet p q →
      Quiet p ((q.setCtx ({ · with pendingL1Owner := owner })).meanwhile rb env .claimed) :=
    fun q owner hq => (hq.trans (Quiet.setCtx _ _ rfl rfl rfl rfl rfl rfl rfl rfl
      fun _ hk => hk)).trans (Quiet.meanwhile rb env _ _)
  split_ifs
  · exact (Quiet.refl p).goesOn
  · exact quiet_coldResumeLocked r env p
  · exact ((hpinned _ _ _).trans
      (Quiet.setCtx _ _ rfl rfl rfl rfl rfl rfl rfl rfl fun _ hk => hk)).origin _
  · exact ((hpassed _ _ _).trans (Quiet.meanwhile rb env _ _)).after (quiet_coldFresh r env _ _)
  · exact (howner _ _ (hpassed _ _ _)).after (quiet_coldClaimed conf r env _ _)
  · exact (howner _ _ (hclaimed _ _)).after (quiet_coldRaced r env _)
  · exact (howner _ _ (hclaimed _ _)).after (quiet_coldClaimed conf r env _ _)

/-- A snapshot of the zone takes the place of one from the second level. -/
theorem snapKeys_armL1 (q : L1Req) (armed : List BlobId) (c : Ctx) :
    ∀ k ∈ (armL1 q armed c).snapKeys, k ∈ c.snapKeys := by
  have hzone : ∀ (o : Option BlobId) (k : KeyHash),
      k ∉ (o.map fun b => Body.zone c.keyHash b).bind Body.l2Key := by
    intro o k hk
    cases o <;> cases hk
  intro k hk
  rw [armL1, mem_snapKeys] at hk
  refine mem_snapKeys.2 (hk.imp (fun hbrk => ?_) fun hsie => ?_)
  · dsimp only at hbrk
    split_ifs at hbrk
    · cases hlast : armed.getLast? with
      | none =>
        rw [hlast, Option.map_none, Option.none_or] at hbrk
        exact hbrk
      | some b =>
        rw [hlast, Option.map_some, Option.some_or] at hbrk
        exact absurd hbrk (hzone (some b) k)
    · exact hbrk
  · dsimp only at hsie
    generalize decide (armed.length > if q.brkArm = true then 1 else 0) = sie at hsie
    cases sie with
    | true => exact absurd hsie (hzone _ k)
    | false => exact hsie

theorem quiet_l1Answer (q : L1Req) (verdict : L1Verdict) (p : Pass) :
    StepQuiet p (l1Answer conf r env q verdict p) := by
  have hpin : ∀ bs, Quiet p (p.pin bs) := fun bs => Quiet.of_ctx rfl rfl
  unfold l1Answer
  cases verdict with
  | miss => exact (Quiet.refl p).goesOn
  | error => exact (Quiet.refl p).ends rfl rfl
  | hit body => exact quiet_serve_zone r env (hpin _) body
  | stale body => exact quiet_serve_zone r env (hpin _) body
  | regenerate => exact (Quiet.refl p).origin _
  | expired armed =>
    exact ((hpin armed).trans
      (Quiet.setCtx _ _ rfl rfl rfl rfl rfl rfl rfl rfl (snapKeys_armL1 q armed _))).goesOn
  | refresh body =>
    have hlock := (hpin body.toList).trans (quiet_lock conf env (p.pin body.toList))
    rcases hl : lock conf env (p.pin body.toList) with ⟨t, sent⟩
    rw [hl] at hlock
    dsimp only
    rw [hl]
    cases sent with
    | true => exact hlock.ends rfl rfl
    | false =>
      dsimp only
      split_ifs
      · exact quiet_serve_zone r env hlock body
      · exact hlock.origin _

/-- **The lookup in the zone uses no reply.** -/
theorem quiet_l1Lookup (p : Pass) : StepQuiet p (l1Lookup conf r env p) :=
  ((Quiet.setZone p _).trans
    (Quiet.setCtx _ _ rfl rfl rfl rfl rfl rfl rfl rfl fun _ hk => hk)).after
      (quiet_l1Answer conf r env _ _ _)

theorem serve_ctx (ref : Option BlobId) (body : Option Body) (stale : Bool)
    (reason : ServeReason) (p : Pass) : (serve r env ref body stale reason p).1.ctx = p.ctx := by
  unfold serve
  dsimp only
  split
  · rfl
  · cases ref <;> rfl
  · split_ifs
    · rfl
    · cases ref <;> rfl

/-- **The lookup in the zone leaves the reply as it is.** -/
theorem same_l1Lookup (p : Pass) : p.ctx.Same (l1Lookup conf r env p).1.ctx := by
  have hserve : ∀ {c : Ctx} {t : Pass}, c.Same t.ctx → ∀ ref body stale reason,
      c.Same (serve r env ref body stale reason t).1.ctx := by
    intro c t ht ref body stale reason
    rw [serve_ctx]
    exact ht
  have hlock : ∀ t : Pass, t.ctx.Same (lock conf env t).1.ctx := by
    intro t
    unfold lock
    split_ifs
    · exact ⟨rfl, rfl, rfl, rfl, rfl, rfl, rfl, rfl, rfl, rfl⟩
    · exact ⟨rfl, rfl, rfl, rfl, rfl, rfl, rfl, rfl, rfl, rfl⟩
  have hanswer : ∀ (q : L1Req) (verdict : L1Verdict) (t : Pass),
      t.ctx.Same (l1Answer conf r env q verdict t).1.ctx := by
    intro q verdict t
    cases verdict with
    | miss | expired _ | error | regenerate =>
      exact ⟨rfl, rfl, rfl, rfl, rfl, rfl, rfl, rfl, rfl, rfl⟩
    | hit body | stale body =>
      exact hserve (t := t.pin body.toList)
        ⟨rfl, rfl, rfl, rfl, rfl, rfl, rfl, rfl, rfl, rfl⟩ _ _ _ _
    | refresh body =>
      have ht : t.ctx.Same (lock conf env (t.pin body.toList)).1.ctx := hlock (t.pin body.toList)
      unfold l1Answer
      rcases hl : lock conf env (t.pin body.toList) with ⟨u, sent⟩
      rw [hl] at ht
      dsimp only
      rw [hl]
      cases sent with
      | true => exact ht
      | false =>
        dsimp only
        split_ifs
        · exact hserve ht _ _ _ _
        · exact ht
  obtain ⟨hkey, hgen, hmiss, htried, hinflight, hdone, hresult, hblob, hskipped, hcounted⟩ :=
    hanswer (l1Req conf env p.ctx)
      (Shm.accessL1 p.zone p.ctx.keyHash p.hash env.now (l1Req conf env p.ctx)).2
      ((p.setZone (Shm.accessL1 p.zone p.ctx.keyHash p.hash env.now (l1Req conf env p.ctx)).1).setCtx
        (l1ReqBounds env
          (Shm.accessL1 p.zone p.ctx.keyHash p.hash env.now (l1Req conf env p.ctx)).2))
  exact ⟨hkey, hgen, hmiss, htried, hinflight, hdone, hresult, hblob, hskipped, hcounted⟩

end Phases

/-! ## A pass that uses a reply -/

section Replies

variable (rb : Rbtree) (digest : Bytes → KeyHash) (crc : KeyHash → UInt32) (conf : Conf)
  (r : Request) (base : Bytes) (env : Env)

/-- The key that a pass goes on with once it has read the marker's reply, if there is one. -/
def requestKey (c : Ctx) : KeyHash :=
  if c.takesMarker then
    match c.markerReply env with
    | some (bits, gen, _, remStale) =>
        if remStale > 0 then variantHash digest r base bits gen else c.keyHash
    | none =>
        if c.markerRevalidateInflight ∧ c.l2Result = .declined then digest base else c.keyHash
  else c.keyHash

variable {env}

theorem Ctx.Same.trans {c c' c'' : Ctx} (h : c.Same c') (h' : c'.Same c'') : c.Same c'' :=
  ⟨h'.key.trans h.key, h'.gen.trans h.gen, h'.l1Miss.trans h.l1Miss, h'.tried.trans h.tried,
    h'.inflight.trans h.inflight, h'.done.trans h.done, h'.result.trans h.result,
    h'.blob.trans h.blob, h'.skipped.trans h.skipped, h'.counted.trans h.counted⟩

theorem Ctx.Same.takesMarker {c c' : Ctx} (h : c.Same c') : c'.takesMarker = c.takesMarker := by
  rw [Ctx.takesMarker, Ctx.takesMarker, h.tried, h.done, h.l1Miss, h.inflight]

theorem Ctx.Same.markerReply {c c' : Ctx} (h : c.Same c') :
    c'.markerReply env = c.markerReply env := by
  rw [Ctx.markerReply, Ctx.markerReply, h.result, h.blob, h.inflight, h.gen]

theorem Ctx.Same.requestKey {c c' : Ctx} (h : c.Same c') :
    requestKey digest r base env c' = requestKey digest r base env c := by
  unfold Access.requestKey
  rw [h.takesMarker, h.markerReply, h.key, h.inflight, h.result]

variable (env)

/-- The marker's reply, once it is there, is waited for by the flags that say so. -/
structure Ctx.Marked (c : Ctx) : Prop where
  tried : c.markerL2Tried = true → c.l2Done = true
  inflight : c.markerRevalidateInflight = true → c.markerL2Tried = true

/-- No reply of a marker is waited for. -/
def Ctx.Clear (c : Ctx) : Prop :=
  c.markerL2Tried = false ∧ c.markerRevalidateInflight = false

/-- **A use of the reply in `c`**: as the marker's, under the marker's key, or as an object's,
under the key that was resolved. -/
structure UseOk (c : Ctx) (d : Deed) : Prop where
  blob : ∀ k ∈ d.blobUse,
    c.takesMarker = true ∧ k = markerHash digest base ∧ (c.markerReply env).isSome = true ∨
      c.takesMarker = false ∧ k = c.keyHash ∧ c.HasBlob
  result : ∀ k ∈ d.resultUse,
    c.takesMarker = true ∧ k = markerHash digest base ∧ c.l2Result = .declined ∨
      c.takesMarker = false ∧ k = c.keyHash ∧ c.HasMiss

/-- The context `c'` has the reply of `c` still, under the key of `c`. -/
structure Ctx.Holds (c c' : Ctx) : Prop where
  key : c'.keyHash = c.keyHash
  done : c.l2Done = true
  result : c'.l2Result = c.l2Result
  skipped : c'.l2NegSkipped = false → c.l2NegSkipped = false
  counted : c'.l2MissCounted = false → c.l2MissCounted = false

/-- A reply that nothing is used of: the second level could not be asked, or was not. -/
def Ctx.Idle (c : Ctx) : Prop :=
  c.l2Result = .error ∨ c.l2Result = .declined ∧ c.l2NegSkipped = true

/-- What a pass that began with the reply of `c` has used of it, and what it has left. -/
structure Kept (c : Ctx) (p : Pass) : Prop where
  deeds : ∀ d ∈ p.deeds, UseOk digest base env c d
  snaps : ∀ k ∈ p.ctx.snapKeys, k = p.ctx.keyHash
  reply : p.ctx.l2Done = true → p.ctx.Idle ∨ c.Holds p.ctx
  blob : ∀ b, p.ctx.l2Blob = some b → c.l2Blob = some b ∧ p.ctx.keyHash = c.keyHash

/-- The same for a pass that has put away the reply of the marker. -/
structure Uses (c : Ctx) (p : Pass) : Prop extends Kept digest base env c p where
  read : c.takesMarker = true → p.ctx.l2Done = true → p.ctx.Idle
  clear : env.markerSent = true → c.Marked → p.ctx.Clear

/-- What the flags say after a pass: the marker's `GET` is on its way, or nothing is waited for,
or the lookup in the zone has ended the pass. -/
def FlagsLeft (c : Ctx) (p : Pass) (e : End) : Prop :=
  e = .parked .markerGet ∧ p.ctx.markerL2Tried = true ∨
    e ≠ .parked .markerGet ∧ (p.ctx.Clear ∧
        (c.takesMarker = true → p.ctx.l2Done = true → p.ctx.Idle) ∨
      c.Same p.ctx ∧ e.asks = false)

/-- The same for a pass that is over: what it gives to the client, and what it has asked for. -/
structure Over (c : Ctx) (p : Pass) (e : End) : Prop extends Kept digest base env c p where
  keys : ∀ k ∈ e.l2Keys p.ctx, k = p.ctx.keyHash
  marker : e = .parked .markerGet → p.deeds.head? = some (.asked (markerHash digest base))
  object : e = .parked .objectGet → p.deeds.head? = some (.asked p.ctx.keyHash)
  flags : env.markerSent = true → c.Marked → FlagsLeft c p e

/-- A phase has gone on, or ended the pass. -/
def StepUses (c : Ctx) (s : Step) : Prop :=
  match s.2 with
  | none => Uses digest base env c s.1
  | some e => Over digest base env c s.1 e

variable {digest base env}

theorem StepUses.andThen {c : Ctx} {s : Step} (h : StepUses digest base env c s)
    {next : Pass → Step}
    (hnext : ∀ p, Uses digest base env c p → StepUses digest base env c (next p)) :
    StepUses digest base env c (s.andThen next) := by
  obtain ⟨p, e⟩ := s
  cases e with
  | none => exact hnext p h
  | some e => exact h

/-- A deed that uses no reply. -/
theorem UseOk.of_none {c : Ctx} {d : Deed} (hblob : d.blobUse = none)
    (hresult : d.resultUse = none) : UseOk digest base env c d :=
  ⟨fun k hk => by simp [hblob] at hk, fun k hk => by simp [hresult] at hk⟩

/-- A part that uses no reply. -/
theorem Kept.still {c : Ctx} {p p' : Pass} (h : Kept digest base env c p) (hq : Still p p') :
    Kept digest base env c p' where
  deeds := by
    rw [hq.deeds]
    exact h.deeds
  snaps := fun k hk => (h.snaps k (hq.snaps k hk)).trans hq.key.symm
  reply := fun hd => by
    obtain ⟨hd', hresult, hskipped, hcounted⟩ := hq.reply hd
    refine (h.reply hd').imp (fun hidle => ?_) fun hold => ?_
    · rw [Ctx.Idle, hresult, hskipped]
      exact hidle
    · exact ⟨hq.key.trans hold.key, hold.done, hresult.trans hold.result,
        fun hs => hold.skipped (hskipped.symm.trans hs),
        fun hc => hold.counted (hcounted.symm.trans hc)⟩
  blob := fun b hb => by
    obtain ⟨hblob, hkey⟩ := h.blob b (hq.blob b hb)
    exact ⟨hblob, hq.key.trans hkey⟩

theorem Uses.quiet {c : Ctx} {p p' : Pass} (h : Uses digest base env c p) (hq : Quiet p p') :
    Uses digest base env c p' where
  toKept := h.toKept.still hq.toStill
  read := fun htakes hd => by
    obtain ⟨hd', hresult, hskipped, -⟩ := hq.reply hd
    rw [Ctx.Idle, hresult, hskipped]
    exact h.read htakes hd'
  clear := fun hsent hmarked => by
    rw [Ctx.Clear, hq.tried, hq.inflight]
    exact h.clear hsent hmarked

/-- The flags of a pass that has put away the reply of the marker. -/
theorem Uses.flags {c : Ctx} {p : Pass} (h : Uses digest base env c p) {e : End}
    (he : e ≠ .parked .markerGet) (hsent : env.markerSent = true) (hmarked : c.Marked) :
    FlagsLeft c p e :=
  Or.inr ⟨he, Or.inl ⟨h.clear hsent hmarked, h.read⟩⟩

/-- An end without a `GET`. -/
theorem Kept.over {c : Ctx} {p : Pass} {s : Step} (h : Kept digest base env c p)
    (hs : StepQuiet p s) {e : End} (he : e ∈ s.2)
    (hflags : env.markerSent = true → c.Marked → FlagsLeft c s.1 e) :
    Over digest base env c s.1 e where
  toKept := h.still hs.quiet.toStill
  keys := fun k hk => (hs.keys e he k hk).elim
    (fun hsnap => (h.snaps k hsnap).trans hs.quiet.key.symm) id
  marker := fun hm => by cases hm.symm ▸ hs.asks e he
  object := fun ho => by cases ho.symm ▸ hs.asks e he
  flags := hflags

/-- A phase that uses no reply. -/
theorem Uses.step {c : Ctx} {p : Pass} {s : Step} (h : Uses digest base env c p)
    (hs : StepQuiet p s) : StepUses digest base env c s := by
  obtain ⟨q, e⟩ := s
  cases e with
  | none => exact h.quiet hs.quiet
  | some e => exact h.toKept.over hs rfl ((h.quiet hs.quiet).flags (hs.not_markerGet rfl))

theorem Kept.did {c : Ctx} {p : Pass} (h : Kept digest base env c p) {d : Deed}
    (hd : UseOk digest base env c d) : Kept digest base env c (p.did d) :=
  ⟨fun d' hd' => (List.mem_cons.1 hd').elim (fun he => he ▸ hd) (h.deeds d'), h.snaps, h.reply,
    h.blob⟩

theorem Uses.did {c : Ctx} {p : Pass} (h : Uses digest base env c p) {d : Deed}
    (hd : UseOk digest base env c d) : Uses digest base env c (p.did d) :=
  ⟨h.toKept.did hd, h.read, h.clear⟩

/-- A response in the context is an object's, for the key of the pass. -/
theorem Uses.hasBlob {c : Ctx} {p : Pass} (h : Uses digest base env c p)
    (hdone : p.ctx.l2Done = true) (hresult : p.ctx.l2Result = .ok) {b : Bytes}
    (hb : p.ctx.l2Blob = some b) :
    c.takesMarker = false ∧ p.ctx.keyHash = c.keyHash ∧ c.HasBlob := by
  have hidle : ¬p.ctx.Idle := by
    rintro (he | ⟨hd, -⟩)
    · exact absurd (hresult.symm.trans he) nofun
    · exact absurd (hresult.symm.trans hd) nofun
  obtain ⟨hcb, hkey⟩ := h.blob b hb
  refine ⟨?_, hkey, ?_⟩
  · cases htakes : c.takesMarker with
    | false => rfl
    | true => exact absurd (h.read htakes hdone) hidle
  · have hold := (h.reply hdone).resolve_left hidle
    exact ⟨hold.done, hold.result.symm.trans hresult, by rw [hcb]; exact Option.some_ne_none b⟩

/-- A miss in the context is an object's, for the key of the pass. -/
theorem Uses.hasMiss {c : Ctx} {p : Pass} (h : Uses digest base env c p) (hp : p.ctx.HasMiss) :
    c.takesMarker = false ∧ p.ctx.keyHash = c.keyHash ∧ c.HasMiss := by
  have hidle : ¬p.ctx.Idle := by
    rintro (he | ⟨-, hs⟩)
    · exact absurd (hp.result.symm.trans he) nofun
    · exact absurd (hp.skipped.symm.trans hs) Bool.false_ne_true
  have hold := (h.reply hp.done).resolve_left hidle
  refine ⟨?_, hold.key, hold.done, hold.result.symm.trans hp.result, hold.skipped hp.skipped,
    hold.counted hp.counted⟩
  cases htakes : c.takesMarker with
  | false => rfl
  | true => exact absurd (h.read htakes hp.done) hidle

/-! ### The marker's reply -/

variable (digest base env)

/-- What reading the marker's reply uses, and the key that it leaves. -/
theorem l2MarkerRead_spec {p : Pass} (htakes : p.ctx.takesMarker = true) (hdeeds : p.deeds = []) :
    (∀ d ∈ (l2MarkerRead rb digest crc conf r base env p).deeds,
        UseOk digest base env p.ctx d) ∧
      (l2MarkerRead rb digest crc conf r base env p).ctx.snapKeys = p.ctx.snapKeys ∧
      (l2MarkerRead rb digest crc conf r base env p).ctx.keyHash =
        requestKey digest r base env p.ctx := by
  have hnone : ∀ d ∈ p.deeds, UseOk digest base env p.ctx d := fun d hd => by
    rw [hdeeds] at hd
    cases hd
  have hone : ∀ {d : Deed}, UseOk digest base env p.ctx d →
      ∀ d' ∈ d :: p.deeds, UseOk digest base env p.ctx d' := fun hd d' hd' =>
    (List.mem_cons.1 hd').elim (fun he => he ▸ hd) (hnone d')
  unfold l2MarkerRead
  rw [requestKey, if_pos htakes]
  cases hreply : p.ctx.markerReply env with
  | some m =>
    obtain ⟨bits, gen, remFresh, remStale⟩ := m
    dsimp only
    split_ifs
    · refine ⟨hone ⟨fun k hk => Or.inl ⟨htakes, (Option.some.inj hk).symm, ?_⟩, nofun⟩, rfl, rfl⟩
      rw [hreply]
      rfl
    · exact ⟨hnone, rfl, rfl⟩
  | none =>
    dsimp only
    split_ifs with hgone hmemo
    · exact ⟨hone ⟨nofun, fun k hk => Or.inl ⟨htakes, (Option.some.inj hk).symm, hgone.2⟩⟩,
        rfl, rfl⟩
    · exact ⟨hone ⟨nofun, fun k hk => Or.inl ⟨htakes, (Option.some.inj hk).symm, hmemo.2.2⟩⟩,
        rfl, rfl⟩
    · exact ⟨hnone, rfl, rfl⟩

/-- **The reply of the marker is used under the marker's key, and put away.**  Snapshots that the
context has keep their key. -/
theorem uses_l2MarkerConsume {p : Pass} (hdeeds : p.deeds = [])
    (hsnaps : ∀ k ∈ p.ctx.snapKeys,
      k = p.ctx.keyHash ∧ k = requestKey digest r base env p.ctx) :
    Uses digest base env p.ctx (l2MarkerConsume rb digest crc conf r base env p) := by
  have hkept : Kept digest base env p.ctx p :=
    ⟨fun d hd => absurd (hdeeds ▸ hd) List.not_mem_nil, fun k hk => (hsnaps k hk).1,
      fun hd => Or.inr ⟨rfl, hd, rfl, fun hs => hs, fun hc => hc⟩, fun b hb => ⟨hb, rfl⟩⟩
  unfold l2MarkerConsume
  dsimp only
  split_ifs with hpending htakes
  · rw [Bool.or_eq_true_iff, Bool.not_eq_eq_eq_not, Bool.not_eq_eq_eq_not, Bool.not_true] at hpending
    have hobject : p.ctx.takesMarker = false := by
      rw [Ctx.takesMarker]
      rcases hpending with ht | hd
      · rw [ht]
        rfl
      · rw [hd, Bool.and_false, Bool.false_and]
    refine ⟨hkept, fun h => absurd (hobject.symm.trans h) Bool.false_ne_true, fun _ hmarked => ?_⟩
    have htried : p.ctx.markerL2Tried = false := hpending.elim id fun hd =>
      Bool.eq_false_iff.2 fun ht => absurd (hd.symm.trans (hmarked.tried ht)) Bool.false_ne_true
    exact ⟨htried, Bool.eq_false_iff.2 fun hi =>
      absurd (htried.symm.trans (hmarked.inflight hi)) Bool.false_ne_true⟩
  · obtain ⟨huses, hkeep, hkey⟩ := l2MarkerRead_spec rb digest crc conf r base env htakes hdeeds
    refine ⟨⟨huses, fun k hk => ?_, nofun, nofun⟩, nofun, fun _ _ => ⟨rfl, rfl⟩⟩
    have hk' : k ∈ (l2MarkerRead rb digest crc conf r base env p).ctx.snapKeys := hk
    rw [hkeep] at hk'
    exact (hsnaps k hk').2.trans hkey.symm
  · exact ⟨hkept.still (Still.setCtx _ _ rfl rfl rfl rfl rfl rfl fun _ hk => hk),
      fun h => absurd h htakes, fun _ _ => ⟨rfl, rfl⟩⟩

variable {digest base env}

/-! ### The two lookups, and the reply of the object -/

theorem Uses.goesOn {c : Ctx} {p : Pass} (h : Uses digest base env c p) :
    StepUses digest base env c (p, none) := h

theorem uses_l2MarkerGet {c : Ctx} {p : Pass} (h : Uses digest base env c p) :
    StepUses digest base env c (l2MarkerGet digest crc conf base env p) := by
  unfold l2MarkerGet
  dsimp only
  generalize (if (!p.ctx.markerRevalidate && decide (conf.l2NegativeTtl > 0)) = true then
    Shm.l2NegCheck p.zone (markerHash digest base) (crc (markerHash digest base)) env.now
    else (p.zone, .ok)) = checked
  have hzone : Uses digest base env c (p.setZone checked.1) := h.quiet (Quiet.setZone p _)
  split_ifs with hnot hmemo hsent
  · exact h.goesOn
  · refine Uses.goesOn (Uses.did (hzone.quiet ?_) (UseOk.of_none rfl rfl))
    exact Quiet.setCtx _ _ rfl rfl rfl rfl rfl rfl rfl rfl fun k hk => hk
  · refine ⟨Kept.did (hzone.toKept.still ?_) (UseOk.of_none rfl rfl), nofun, fun _ => rfl, nofun,
      fun _ _ => Or.inl ⟨rfl, rfl⟩⟩
    exact Still.setCtx _ _ rfl rfl rfl rfl rfl rfl fun k hk => hk
  · have hread : c.takesMarker = true → p.ctx.l2Done = true → p.ctx.Idle := h.read
    refine Uses.goesOn ⟨hzone.toKept.still ?_, hread, fun hs => absurd hs hsent⟩
    exact Still.setCtx _ _ rfl rfl rfl rfl rfl rfl fun k hk => hk

theorem uses_l2NegMemo {c : Ctx} {p : Pass} (h : Uses digest base env c p) :
    Uses digest base env c (l2NegMemo crc conf env p) := by
  unfold l2NegMemo
  dsimp only
  split_ifs
  · have hskipped : Uses digest base env c ((p.setZone (Shm.l2NegCheck p.zone p.ctx.keyHash
        (crc p.ctx.keyHash) env.now).1).setCtx ({ · with
          l2Done := true, l2Result := .declined, l2NegSkipped := true })) :=
      ⟨⟨h.deeds, h.snaps, fun _ => Or.inl (Or.inr ⟨rfl, rfl⟩), h.blob⟩,
        fun _ _ => Or.inr ⟨rfl, rfl⟩, h.clear⟩
    exact hskipped.did (UseOk.of_none rfl rfl)
  · exact h.quiet (Quiet.setZone p _)
  · exact h

theorem uses_l2Get {c : Ctx} {p : Pass} (h : Uses digest base env c p) :
    StepUses digest base env c (l2Get conf env p) := by
  unfold l2Get
  split_ifs
  · exact ⟨⟨h.deeds, h.snaps, fun _ => Or.inl (Or.inl rfl), h.blob⟩, fun _ _ => Or.inl rfl,
      h.clear⟩
  · have hasked : Uses digest base env c (p.did (.asked p.ctx.keyHash)) :=
      h.did (UseOk.of_none rfl rfl)
    exact ⟨hasked.toKept, nofun, nofun, fun _ => rfl, hasked.flags nofun⟩
  · exact h.goesOn

/-- A response that is past its life is kept under the key of the pass. -/
theorem uses_armL2 {c : Ctx} {p : Pass} (h : Uses digest base env c p) (brk snap : Bool)
    (blob : Bytes) : Uses digest base env c (p.setCtx (armL2 brk snap (.l2 p.ctx.keyHash blob))) := by
  refine ⟨⟨h.deeds, fun k hk => ?_, fun hd => (h.reply hd).imp_right fun hold => ?_, h.blob⟩,
    h.read, h.clear⟩
  rotate_left
  · exact ⟨hold.key, hold.done, hold.result, hold.skipped, hold.counted⟩
  rcases mem_snapKeys.1 hk with hk | hk
  · cases brk with
    | true => exact (Option.some.inj hk).symm
    | false => exact h.snaps k (mem_snapKeys.2 (Or.inl hk))
  · cases snap with
    | true => exact (Option.some.inj hk).symm
    | false => exact h.snaps k (mem_snapKeys.2 (Or.inr hk))

/-- **The reply of the object is used under the key of the pass.** -/
theorem uses_l2Reply {c : Ctx} {p : Pass} (h : Uses digest base env c p) :
    StepUses digest base env c (l2Reply rb crc conf r env p) := by
  unfold l2Reply
  split_ifs with hdone
  · cases hb : p.ctx.l2Blob with
    | none => exact h.goesOn
    | some blob =>
      obtain ⟨htakes, hkey, hhas⟩ := h.hasBlob hdone.1 hdone.2 hb
      have huse : ∀ {d : Deed}, d.blobUse = some p.ctx.keyHash → d.resultUse = none →
          UseOk digest base env c d := fun hd hd' =>
        ⟨fun k hk => Or.inr ⟨htakes, (Option.some.inj (hd.symm.trans hk)).symm.trans hkey, hhas⟩,
          fun k hk => by simp [hd'] at hk⟩
      dsimp only
      cases accessL2 env.now env.l2FreshOk env.l2StaleOk blob with
      | miss => exact h.goesOn
      | expired sie =>
        refine Uses.goesOn ?_
        unfold l2ExpiredArm
        dsimp only
        split_ifs
        · exact (uses_armL2 h _ _ blob).did (huse rfl rfl)
        · exact uses_armL2 h _ _ blob
      | revalidate =>
        refine Uses.goesOn (h.quiet ?_)
        exact Quiet.setCtx _ _ rfl rfl rfl rfl rfl rfl rfl rfl fun k hk => hk
      | promote remFresh remStale =>
        have hzone := h.quiet (Quiet.setZone p (Shm.storeIf rb p.zone p.ctx.keyHash
          (crc p.ctx.keyHash) env.now blob remFresh remStale .newer false).1)
        have hpromoted := hzone.did (huse (d := .promoted p.ctx.keyHash blob) rfl rfl)
        exact hpromoted.step (quiet_serve r env (Quiet.refl _) fun k hk =>
          Or.inr (Option.some.inj (Option.mem_def.1 hk)).symm)
  · exact h.goesOn

/-- **A miss is remembered under the key of the pass.** -/
theorem uses_l2MissAccount {c : Ctx} {p : Pass} (h : Uses digest base env c p) :
    Uses digest base env c (l2MissAccount rb conf env p) := by
  have hcounted : Uses digest base env c (p.setCtx ({ · with l2MissCounted := true })) :=
    ⟨⟨h.deeds, h.snaps, fun hd => (h.reply hd).imp_right fun hold =>
      ⟨hold.key, hold.done, hold.result, hold.skipped, nofun⟩, h.blob⟩, h.read, h.clear⟩
  unfold l2MissAccount
  dsimp only
  split_ifs with haccount hmemo
  · simp only [Bool.and_eq_true, Bool.not_eq_eq_eq_not, Bool.not_true] at haccount
    obtain ⟨htakes, hkey, hmiss⟩ := h.hasMiss ⟨haccount.1.2, hmemo.2.2, hmemo.2.1, haccount.2⟩
    refine (hcounted.quiet (Quiet.setZone _ _)).did ⟨nofun, fun k hk => Or.inr ⟨htakes, ?_, hmiss⟩⟩
    exact (Option.some.inj hk).symm.trans hkey
  · exact hcounted
  · exact h

/-! ### The whole pass -/

variable (digest base env)

/-- The phases of the second level. -/
theorem uses_l2 {p : Pass} (hdeeds : p.deeds = [])
    (hsnaps : ∀ k ∈ p.ctx.snapKeys,
      k = p.ctx.keyHash ∧ k = requestKey digest r base env p.ctx) :
    StepUses digest base env p.ctx (l2 rb digest crc conf r base env p) :=
  (uses_l2MarkerGet crc conf
      ((uses_l2MarkerConsume rb digest crc conf r base env (p := p.meanwhile rb env .marker)
        hdeeds hsnaps).quiet (Quiet.meanwhile rb env _ _))).andThen
    fun _ hq => (uses_l2Get conf (uses_l2NegMemo crc conf
      (hq.quiet (Quiet.meanwhile rb env _ _)))).andThen fun _ hq =>
        uses_l2Reply rb crc conf r (hq.quiet (Quiet.meanwhile rb env _ _))

variable {digest base env}

/-- The phases after the second level. -/
theorem uses_gates {c : Ctx} {p : Pass} (h : Uses digest base env c p) :
    StepUses digest base env c ((onlyIfCached conf r env (p.meanwhile rb env .onlyIfCached)).andThen
      fun p => (breakerGate conf r env (p.meanwhile rb env .breaker)).andThen fun p =>
        (minUses rb conf env (p.meanwhile rb env .minUses)).andThen fun p =>
          cold rb conf r env (p.meanwhile rb env .cold)) :=
  (h.quiet (Quiet.meanwhile rb env .onlyIfCached p)).step
    ((quiet_onlyIfCached conf r env _).andThen fun q _ =>
      ((Quiet.meanwhile rb env .breaker q).after (quiet_breakerGate conf r env _)).andThen
        fun t _ => ((Quiet.meanwhile rb env .minUses t).after
          (quiet_minUses rb conf env _)).andThen
            fun u _ => (Quiet.meanwhile rb env .cold u).after (quiet_cold rb conf r env _))

/-- A pass that no phase has ended goes to the origin. -/
theorem StepUses.over {c : Ctx} {s : Step} (h : StepUses digest base env c s) :
    Over digest base env c s.1 (s.2.getD (.origin .plain)) := by
  obtain ⟨p, e⟩ := s
  cases e with
  | none => exact (Uses.toKept h).over ((Quiet.refl p).origin .plain) rfl (Uses.flags h nofun)
  | some e => exact h

/-- What the lookup changes in a context does not count for its reply. -/
theorem Over.of_same {c c' : Ctx} (hs : c.Same c') {p : Pass} {e : End}
    (h : Over digest base env c' p e) : Over digest base env c p e where
  deeds := fun d hd => by
    have huse := h.deeds d hd
    refine ⟨fun k hk => ?_, fun k hk => ?_⟩
    · rw [← hs.takesMarker, ← hs.markerReply, ← hs.key]
      refine (huse.blob k hk).imp_right fun ⟨htakes, hkey, hhas⟩ => ⟨htakes, hkey, ?_⟩
      exact ⟨hs.done.symm.trans hhas.done, hs.result.symm.trans hhas.result, hs.blob ▸ hhas.blob⟩
    · rw [← hs.takesMarker, ← hs.key, ← hs.result]
      refine (huse.result k hk).imp_right fun ⟨htakes, hkey, hmiss⟩ => ⟨htakes, hkey, ?_⟩
      exact ⟨hs.done.symm.trans hmiss.done, hs.result.symm.trans hmiss.result,
        hs.skipped.symm.trans hmiss.skipped, hs.counted.symm.trans hmiss.counted⟩
  snaps := h.snaps
  reply := fun hd => (h.reply hd).imp_right fun hold =>
    ⟨hold.key.trans hs.key, hs.done.symm.trans hold.done, hold.result.trans hs.result,
      fun hk => hs.skipped.symm.trans (hold.skipped hk),
      fun hk => hs.counted.symm.trans (hold.counted hk)⟩
  blob := fun b hb => by
    obtain ⟨hblob, hkey⟩ := h.blob b hb
    exact ⟨hs.blob.symm.trans hblob, hkey.trans hs.key⟩
  keys := h.keys
  marker := h.marker
  object := h.object
  flags := fun hsent hmarked => by
    have hmarked' : c'.Marked := by
      refine ⟨?_, ?_⟩
      · rw [hs.tried, hs.done]
        exact hmarked.tried
      · rw [hs.tried, hs.inflight]
        exact hmarked.inflight
    refine (h.flags hsent hmarked').imp_right fun ⟨he, hleft⟩ => ⟨he, hleft.imp ?_ ?_⟩
    · rw [← hs.takesMarker]
      exact id
    · exact And.imp_left hs.trans

variable (digest base env)

/-- **What a pass uses a reply for.**  Whatever it uses the reply of the context for, it uses it
for the marker, as the flags say, or else for the object of the key that the zone resolves to;
provided that the snapshots it begins with are of the key that it goes on with. -/
theorem handler_uses {p : Pass} (hdeeds : p.deeds = [])
    (hsnaps : let c := resolve digest crc conf r base env p.zone p.ctx
      ∀ k ∈ c.snapKeys, k = c.keyHash ∧ k = requestKey digest r base env c) :
    Over digest base env (resolve digest crc conf r base env p.zone p.ctx)
      (handler rb digest crc conf r base env p).1 (handler rb digest crc conf r base env p).2 := by
  set c := resolve digest crc conf r base env p.zone p.ctx with hc
  set q : Pass := { p with ctx := c, hash := crc c.keyHash }.meanwhile rb env .lookup with hq
  have hkept : Kept digest base env c q :=
    ⟨fun d hd => absurd (hdeeds ▸ hd) List.not_mem_nil, fun k hk => (hsnaps k hk).1,
      fun hd => Or.inr ⟨rfl, hd, rfl, fun hs => hs, fun hn => hn⟩, fun b hb => ⟨hb, rfl⟩⟩
  have hlookup := quiet_l1Lookup conf r env q
  have hsame : c.Same (l1Lookup conf r env q).1.ctx := same_l1Lookup conf r env q
  rw [handler, l1, ← hc, ← hq]
  dsimp only
  cases he : (l1Lookup conf r env q).2 with
  | some e =>
    rw [Step.andThen_ended he, he]
    exact hkept.over hlookup (Option.mem_def.2 he) fun _ _ =>
      Or.inr ⟨hlookup.not_markerGet he, Or.inr ⟨hsame, hlookup.asks e he⟩⟩
  | none =>
    rw [Step.andThen_goesOn he]
    have hbegin : ∀ k ∈ (l1Lookup conf r env q).1.ctx.snapKeys,
        k = (l1Lookup conf r env q).1.ctx.keyHash ∧
          k = requestKey digest r base env (l1Lookup conf r env q).1.ctx := by
      intro k hk
      rw [hsame.key, hsame.requestKey]
      exact hsnaps k (hlookup.quiet.snaps k hk)
    have huses := (uses_l2 rb digest crc conf r base env
      (hlookup.quiet.deeds.trans hdeeds) hbegin).andThen fun t ht =>
        uses_gates rb conf r (uses_l2MissAccount rb conf
          (ht.quiet (Quiet.meanwhile rb env .account t)))
    exact huses.over.of_same hsame

end Replies

end Access
end Http
end CacheTurbo
