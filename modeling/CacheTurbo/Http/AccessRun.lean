/-
# A reply and the key it was asked for

Both `GET`s put their reply in one place of the context, and each resume decides anew what kind
of reply it is and for which key.  The ghosts `result` and `blob` of a visit tell which `GET`
brought it.

`replies_under_their_key` says when no reply is used under another key than its own: the key
stays while the request is parked, and a marker whose `GET` it waits for stays missing
(`Undisturbed`).  Then the flags read each reply as what it is (`ReadRight`), which is what
counts.  Where a marker is published while its own `GET` is on its way, its reply is put in the
zone as the response of the variant.
-/

import CacheTurbo.Http.AccessReplies
import CacheTurbo.Http.AccessVisit

namespace CacheTurbo
namespace Http
namespace Access

open Bytes Blob
open Shm (Zone Rbtree Loans)

variable (rb : Rbtree) (digest : Bytes → KeyHash) (crc : KeyHash → UInt32) (conf : Conf)
  (r : Request) (base : Bytes)

/-! ## The claim, and the condition -/

/-- **The reply is used only for the key it answers**: the blob under the key of the `GET` that
brought it, a miss under the key of the `GET` that was answered so, and what is given to the
client, or kept for it, has the key of the request. -/
structure UsedRight (s : Visit) (res : Pass × End) : Prop where
  blob : ∀ d ∈ res.1.deeds, ∀ k ∈ d.blobUse, s.blob.map Get.keyHash = some k
  result : ∀ d ∈ res.1.deeds, ∀ k ∈ d.resultUse, s.result.map Get.keyHash = some k
  keys : ∀ k ∈ res.2.l2Keys res.1.ctx, k = res.1.ctx.keyHash

/-- An event after which no reply is used for another key. -/
def OnlyItsKey (s : Visit) (e : VisitEvent) : Prop :=
  ∀ a ∈ s.arrive e, UsedRight a.1 (handler rb digest crc conf r base a.2 a.1.pass)

/-- The answer is from a `GET` of this kind. -/
def From (marker : Bool) (answered : Option Get) : Prop := ∃ g ∈ answered, g.marker = marker

/-- **The reply in the context is read as what it is**, and the key stays while it is an
object's; `c` is the context as the zone resolves it. -/
structure ReadRight (s : Visit) (env : Env) (c : Ctx) : Prop where
  marker_miss : c.takesMarker = true → c.l2Result = .declined → From true s.result
  marker_blob : c.takesMarker = true → (c.markerReply env).isSome = true → From true s.blob
  object_miss : c.takesMarker = false → c.HasMiss → From false s.result
  object_blob : c.takesMarker = false → c.HasBlob → From false s.blob
  key_miss : From false s.result → c.HasMiss → c.keyHash = s.ctx.keyHash
  key_blob : From false s.blob → c.l2Blob ≠ none → c.keyHash = s.ctx.keyHash
  snaps : s.ctx.snapKeys ≠ [] →
    c.keyHash = s.ctx.keyHash ∧ requestKey digest r base env c = s.ctx.keyHash

/-- A reply that comes in is read right. -/
def ReadsRight (s : Visit) (e : VisitEvent) : Prop :=
  ∀ a ∈ s.arrive e, ReadRight digest r base a.1 a.2
    (resolve digest crc conf r base a.2 a.1.zone a.1.ctx)

/-- **The zone answers a resume as it answered the pass before**: the request has the key that it
went on with, and a marker that it asked for is missing still, unless its copy is checked. -/
structure Steady (s : Visit) (env : Env) (c : Ctx) : Prop where
  /-- A marker's `GET` that is due reaches the wire. -/
  sent : env.markerSent = true
  key : s.place ≠ .outside → c.keyHash = s.ctx.keyHash
  missing : c.markerL2Tried = true → c.markerRevalidateInflight = false → c.markerL1Miss = true
  /-- A marker's reply does not change the key of a snapshot. -/
  snaps : s.ctx.snapKeys ≠ [] → requestKey digest r base env c = s.ctx.keyHash

/-- No value in the second level is empty. -/
def VisitEvent.Valued : VisitEvent → Prop
  | .reply result blob _ _ => result = .ok → 0 < blob.length
  | .enter _ | .lockReply _ _ | .woken _ | .other _ | .unstored _ | .stored _ _ _ | .redirect _
  | .closed _ _ => True

/-- The condition on an event. -/
def Undisturbed (s : Visit) (e : VisitEvent) : Prop :=
  e.Valued ∧ ∀ a ∈ s.arrive e, Steady digest r base a.1 a.2
    (resolve digest crc conf r base a.2 a.1.zone a.1.ctx)

/-! ## Runs -/

/-- **The invariant**: the reply in the context is that of the key which the ghosts tell, for as
long as something can be used of it. -/
structure Inv (s : Visit) : Prop where
  marker : s.place = .parked .markerGet → s.asked = markerHash digest base
  object : s.place = .parked .objectGet → s.asked = s.ctx.keyHash
  result_marker : ∀ g ∈ s.result, g.marker = true → g.keyHash = markerHash digest base
  blob_marker : ∀ g ∈ s.blob, g.marker = true → g.keyHash = markerHash digest base
  result_object : ∀ g ∈ s.result, g.marker = false → s.ctx.HasMiss → g.keyHash = s.ctx.keyHash
  blob_object : ∀ g ∈ s.blob, g.marker = false → s.ctx.l2Blob ≠ none → g.keyHash = s.ctx.keyHash
  snaps : ∀ k ∈ s.ctx.snapKeys, k = s.ctx.keyHash

theorem Inv.begin (others : Loans) (onlyIfCached : Bool) :
    Inv digest base (Visit.begin others onlyIfCached) :=
  ⟨nofun, nofun, nofun, nofun, nofun, nofun, nofun⟩

variable {digest base}

/-- A reply is that of the `GET` on its way. -/
theorem Inv.getFinish {s : Visit} (h : Inv digest base s) (marker : Bool)
    (hplace : s.place = if marker then .parked .markerGet else .parked .objectGet)
    (result : Rc) (blob : Bytes) (room : Bool) :
    Inv digest base (s.getFinish marker result blob room) := by
  have hmarker : marker = true → s.asked = markerHash digest base := fun hm =>
    h.marker (by rw [hplace, if_pos hm])
  have hobject : marker = false → s.asked = s.ctx.keyHash := fun hm =>
    h.object (by rw [hplace, hm]; rfl)
  refine ⟨h.marker, h.object, ?_, ?_, ?_, ?_, h.snaps⟩
  · rintro g hg hm
    obtain rfl := Option.some.inj (Option.mem_def.1 hg)
    exact hmarker hm
  · intro g hg hm
    dsimp only [Visit.getFinish] at hg
    split_ifs at hg
    · obtain rfl := Option.some.inj (Option.mem_def.1 hg)
      exact hmarker hm
    · exact h.blob_marker g hg hm
  · rintro g hg hm -
    obtain rfl := Option.some.inj (Option.mem_def.1 hg)
    exact hobject hm
  · intro g hg hm hblob
    dsimp only [Visit.getFinish, Ctx.getFinish] at hg hblob ⊢
    split_ifs at hg hblob
    · obtain rfl := Option.some.inj (Option.mem_def.1 hg)
      exact hobject hm
    · exact h.blob_object g hg hm hblob

theorem Inv.arrive {s : Visit} (h : Inv digest base s) {e : VisitEvent} {a : Visit × Env}
    (ha : a ∈ s.arrive e) : Inv digest base a.1 := by
  cases e with
  | enter env =>
    obtain ⟨-, ha'⟩ := Option.ite_none_right_eq_some.1 (Option.mem_def.1 ha)
    obtain rfl := Option.some.inj ha'
    exact h
  | woken env =>
    obtain ⟨-, ha'⟩ := Option.ite_none_right_eq_some.1 (Option.mem_def.1 ha)
    obtain rfl := Option.some.inj ha'
    exact h
  | lockReply result env =>
    obtain ⟨-, ha'⟩ := Option.ite_none_right_eq_some.1 (Option.mem_def.1 ha)
    obtain rfl := Option.some.inj ha'
    exact ⟨h.marker, h.object, h.result_marker, h.blob_marker,
      fun g hg hm hmiss => h.result_object g hg hm
        ⟨hmiss.done, hmiss.result, hmiss.skipped, hmiss.counted⟩, h.blob_object, h.snaps⟩
  | reply result blob room env =>
    rw [Visit.arrive, Option.mem_def] at ha
    split at ha
    · rename_i hplace
      obtain rfl := Option.some.inj ha
      exact h.getFinish true hplace result blob room
    · rename_i hplace
      obtain rfl := Option.some.inj ha
      exact h.getFinish false hplace result blob room
    all_goals cases ha
  | other _ | unstored _ | stored _ _ _ | redirect _ | closed _ _ => cases ha

variable (digest base)

/-- A key that is resolved leaves the reply and the snapshots alone. -/
theorem hasMiss_resolve {env : Env} {z : Zone} {ctx : Ctx} :
    (resolve digest crc conf r base env z ctx).HasMiss ↔ ctx.HasMiss :=
  ⟨fun h => ⟨h.done, h.result, h.skipped, h.counted⟩,
    fun h => ⟨h.done, h.result, h.skipped, h.counted⟩⟩

variable {digest base}

/-- The snapshots of a pass have the key that it goes on with. -/
theorem Inv.snaps_resolve {s : Visit} (h : Inv digest base s) {env : Env}
    (hread : ReadRight digest r base s env (resolve digest crc conf r base env s.zone s.ctx)) :
    let c := resolve digest crc conf r base env s.zone s.ctx
    ∀ k ∈ c.snapKeys, k = c.keyHash ∧ k = requestKey digest r base env c := by
  intro c k hk
  obtain ⟨hkey, hrequest⟩ := hread.snaps fun hnone => by
    have hk' : k ∈ s.ctx.snapKeys := hk
    rw [hnone] at hk'
    cases hk'
  have hk' := h.snaps k hk
  exact ⟨hk'.trans hkey.symm, hk'.trans hrequest.symm⟩

/-- What a pass of a request that is read right uses. -/
theorem Inv.usedRight {s : Visit} (h : Inv digest base s) {env : Env}
    (hread : ReadRight digest r base s env (resolve digest crc conf r base env s.zone s.ctx))
    {p : Pass} {e : End}
    (hover : Over digest base env (resolve digest crc conf r base env s.zone s.ctx) p e) :
    UsedRight s (p, e) where
  blob := fun d hd k hk => by
    obtain ⟨htakes, rfl, hsome⟩ | ⟨htakes, rfl, hhas⟩ := (hover.deeds d hd).blob k hk
    · obtain ⟨g, hg, hm⟩ := hread.marker_blob htakes hsome
      rw [Option.mem_def.1 hg, Option.map_some, h.blob_marker g hg hm]
    · obtain ⟨g, hg, hm⟩ := hread.object_blob htakes hhas
      rw [hread.key_blob ⟨g, hg, hm⟩ hhas.blob, Option.mem_def.1 hg, Option.map_some,
        h.blob_object g hg hm hhas.blob]
  result := fun d hd k hk => by
    obtain ⟨htakes, rfl, hdeclined⟩ | ⟨htakes, rfl, hmiss⟩ := (hover.deeds d hd).result k hk
    · obtain ⟨g, hg, hm⟩ := hread.marker_miss htakes hdeclined
      rw [Option.mem_def.1 hg, Option.map_some, h.result_marker g hg hm]
    · obtain ⟨g, hg, hm⟩ := hread.object_miss htakes hmiss
      rw [hread.key_miss ⟨g, hg, hm⟩ hmiss, Option.mem_def.1 hg, Option.map_some,
        h.result_object g hg hm ((hasMiss_resolve digest crc conf r base).1 hmiss)]
  keys := hover.keys

theorem place_parked {e : End} {waits : Waits} (h : e.place = .parked waits) :
    e = .parked waits := by
  cases e with
  | parked waits => exact congrArg End.parked (Place.parked.inj h)
  | served _ _ | origin _ | gatewayTimeout | unavailable | error => cases h

/-- The key of the `GET` that ends a pass. -/
theorem asked_leave {s : Visit} {p : Pass} {e : End} {k : KeyHash}
    (h : p.deeds.head? = some (.asked k)) : (s.leave (p, e)).asked = k := by
  obtain ⟨ds, hds⟩ := List.head?_eq_some_iff.1 h
  unfold Visit.leave
  dsimp only
  rw [hds]
  rfl

theorem Inv.leave {s : Visit} (h : Inv digest base s) {env : Env}
    (hread : ReadRight digest r base s env (resolve digest crc conf r base env s.zone s.ctx))
    {p : Pass} {e : End}
    (hover : Over digest base env (resolve digest crc conf r base env s.zone s.ctx) p e) :
    Inv digest base (s.leave (p, e)) where
  marker := fun hplace => asked_leave (hover.marker (place_parked hplace))
  object := fun hplace => asked_leave (hover.object (place_parked hplace))
  result_marker := h.result_marker
  blob_marker := h.blob_marker
  result_object := fun g hg hm hmiss => by
    have hidle : ¬p.ctx.Idle := by
      rintro (he | ⟨-, hs⟩)
      · exact absurd (hmiss.result.symm.trans he) nofun
      · exact absurd (hmiss.skipped.symm.trans hs) Bool.false_ne_true
    have hold := (hover.reply hmiss.done).resolve_left hidle
    have hmiss' : (resolve digest crc conf r base env s.zone s.ctx).HasMiss :=
      ⟨hold.done, hold.result.symm.trans hmiss.result, hold.skipped hmiss.skipped,
        hold.counted hmiss.counted⟩
    calc g.keyHash = s.ctx.keyHash :=
          h.result_object g hg hm ((hasMiss_resolve digest crc conf r base).1 hmiss')
      _ = (resolve digest crc conf r base env s.zone s.ctx).keyHash :=
          (hread.key_miss ⟨g, hg, hm⟩ hmiss').symm
      _ = p.ctx.keyHash := hold.key.symm
  blob_object := fun g hg hm hblob => by
    obtain ⟨b, hb⟩ := Option.ne_none_iff_exists'.1 hblob
    obtain ⟨hcb, hkey⟩ := hover.blob b hb
    have hsome : s.ctx.l2Blob ≠ none := fun hnone => by
      have hcb' : s.ctx.l2Blob = some b := hcb
      rw [hnone] at hcb'
      cases hcb'
    calc g.keyHash = s.ctx.keyHash := h.blob_object g hg hm hsome
      _ = (resolve digest crc conf r base env s.zone s.ctx).keyHash :=
          (hread.key_blob ⟨g, hg, hm⟩ hsome).symm
      _ = p.ctx.keyHash := hkey.symm
  snaps := hover.snaps

/-- An event that does not run the handler. -/
theorem Inv.elsewhere {s : Visit} (h : Inv digest base s) (e : VisitEvent) :
    Inv digest base (s.elsewhere rb e) := by
  refine Visit.elsewhere_induction rb (fun others coldStored => ?_) (fun onlyIfCached => ?_)
    (fun now gaps => ?_) e
  · exact ⟨h.marker, h.object, h.result_marker, h.blob_marker,
      fun g hg hm hmiss => h.result_object g hg hm
        ⟨hmiss.done, hmiss.result, hmiss.skipped, hmiss.counted⟩, h.blob_object, h.snaps⟩
  · exact ⟨nofun, nofun, nofun, nofun, nofun, nofun, nofun⟩
  · exact ⟨nofun, nofun, nofun, nofun, nofun, nofun, nofun⟩

/-- **One event.** -/
theorem Inv.step {s : Visit} (h : Inv digest base s) {e : VisitEvent}
    (hC : ReadsRight digest crc conf r base s e) :
    OnlyItsKey rb digest crc conf r base s e ∧
      Inv digest base (Visit.step rb digest crc conf r base s e) := by
  unfold Visit.step
  cases ha : s.arrive e with
  | none =>
    refine ⟨fun a ha' => ?_, ?_⟩
    · rw [ha] at ha'
      cases ha'
    · exact h.elsewhere rb e
  | some a =>
    obtain ⟨t, env⟩ := a
    have ht : Inv digest base t := h.arrive ha
    have hread := hC (t, env) ha
    have hover := handler_uses rb digest crc conf r base env (p := t.pass) rfl
      (ht.snaps_resolve crc conf r hread)
    refine ⟨fun a ha' => ?_, ht.leave crc conf r hread hover⟩
    obtain rfl := Option.some.inj (ha.symm.trans ha')
    exact ht.usedRight crc conf r hread hover

/-- Where every reply is read right, it is used right. -/
theorem used_right_of_read_right {s : Visit} (hs : Inv digest base s) {run : List VisitEvent}
    (hread : Run.Along (Visit.step rb digest crc conf r base)
      (ReadsRight digest crc conf r base) s run) :
    Run.Along (Visit.step rb digest crc conf r base) (OnlyItsKey rb digest crc conf r base)
      s run :=
  Run.along_of_invariant (fun _ _ h hC => h.step rb crc conf r hC) hs hread

/-! ## The flags -/

/-- The reply of the marker is there. -/
structure Visit.Answered (s : Visit) : Prop where
  done : s.ctx.l2Done = true
  result : From true s.result
  blob : s.ctx.HasBlob → From true s.blob

/-- **What the flags tell**: the marker's `GET` is on its way, or its reply is there; any other
reply is an object's. -/
structure Flagged (s : Visit) : Prop where
  tried : s.ctx.markerL2Tried = true →
    s.place = .parked .markerGet ∨ s.Answered ∧ s.place ≠ .parked .objectGet
  waits : s.place = .parked .markerGet → s.ctx.markerL2Tried = true
  inflight : s.ctx.markerRevalidateInflight = true → s.ctx.markerL2Tried = true
  miss : s.ctx.markerL2Tried = false → s.ctx.HasMiss → From false s.result
  blob : s.ctx.markerL2Tried = false → s.ctx.HasBlob → From false s.blob
  fresh : s.place = .outside → s.result = none ∧ s.blob = none ∧ s.ctx.snapKeys = []

theorem Flagged.begin (others : Loans) (onlyIfCached : Bool) :
    Flagged (Visit.begin others onlyIfCached) where
  tried := nofun
  waits := nofun
  inflight := nofun
  miss := fun _ hmiss => absurd hmiss.done Bool.false_ne_true
  blob := fun _ hhas => absurd hhas.done Bool.false_ne_true
  fresh := fun _ => ⟨rfl, rfl, rfl⟩

/-- What the flags tell when the handler runs. -/
structure Told (s : Visit) : Prop where
  tried : s.ctx.markerL2Tried = true → s.Answered
  inflight : s.ctx.markerRevalidateInflight = true → s.ctx.markerL2Tried = true
  miss : s.ctx.markerL2Tried = false → s.ctx.HasMiss → From false s.result
  blob : s.ctx.markerL2Tried = false → s.ctx.HasBlob → From false s.blob
  fresh : s.place = .outside → s.result = none ∧ s.blob = none ∧ s.ctx.snapKeys = []

/-- Nothing has come in. -/
theorem Flagged.told {s : Visit} (h : Flagged s) (hplace : s.place ≠ .parked .markerGet) :
    Told s :=
  ⟨fun ht => ((h.tried ht).resolve_left hplace).1, h.inflight, h.miss, h.blob, h.fresh⟩

/-- A reply that is a blob brought it. -/
theorem blob_getFinish {s : Visit} {marker : Bool} {result : Rc} {blob : Bytes} {room : Bool}
    (hvalue : result = .ok → 0 < blob.length)
    (hhas : (s.getFinish marker result blob room).ctx.HasBlob) :
    (s.getFinish marker result blob room).blob = some ⟨marker, s.asked⟩ := by
  have hresult : (if result = .ok ∧ 0 < blob.length ∧ room = false then .error else result) =
    Rc.ok := hhas.result
  have hlen : 0 < blob.length := by
    refine hvalue ?_
    split_ifs at hresult
    exact hresult
  have htaken : taken result blob room = true := by
    split_ifs at hresult with hfull
    subst hresult
    have hroom : room = true := Bool.eq_true_of_not_eq_false fun hno => hfull ⟨rfl, hlen, hno⟩
    rw [taken, hroom, decide_eq_true hlen]
    rfl
  exact if_pos htaken

theorem Flagged.arrive {s : Visit} (h : Flagged s) {e : VisitEvent} (hvalue : e.Valued)
    {a : Visit × Env} (ha : a ∈ s.arrive e) : Told a.1 := by
  cases e with
  | enter env =>
    obtain ⟨hplace, ha'⟩ := Option.ite_none_right_eq_some.1 (Option.mem_def.1 ha)
    obtain rfl := Option.some.inj ha'
    exact h.told (by rw [hplace]; nofun)
  | woken env =>
    obtain ⟨hplace, ha'⟩ := Option.ite_none_right_eq_some.1 (Option.mem_def.1 ha)
    obtain rfl := Option.some.inj ha'
    exact h.told (by rw [hplace]; nofun)
  | lockReply result env =>
    obtain ⟨hplace, ha'⟩ := Option.ite_none_right_eq_some.1 (Option.mem_def.1 ha)
    obtain rfl := Option.some.inj ha'
    have ht : Told s := h.told (by rw [hplace]; nofun)
    refine ⟨fun hm => ?_, ht.inflight, fun hm hmiss => ?_, fun hm hhas => ?_, ht.fresh⟩
    · have hanswered := ht.tried hm
      exact ⟨hanswered.done, hanswered.result,
        fun hhas => hanswered.blob ⟨hhas.done, hhas.result, hhas.blob⟩⟩
    · exact ht.miss hm ⟨hmiss.done, hmiss.result, hmiss.skipped, hmiss.counted⟩
    · exact ht.blob hm ⟨hhas.done, hhas.result, hhas.blob⟩
  | reply result blob room env =>
    rw [Visit.arrive, Option.mem_def] at ha
    split at ha
    · rename_i hplace
      obtain rfl := Option.some.inj ha
      have hnot : s.ctx.markerL2Tried ≠ false := by
        rw [h.waits hplace]
        exact Bool.noConfusion
      exact ⟨fun _ => ⟨rfl, ⟨_, rfl, rfl⟩, fun hhas => ⟨_, blob_getFinish hvalue hhas, rfl⟩⟩,
        h.inflight, fun hm _ => absurd hm hnot, fun hm _ => absurd hm hnot,
        fun hout => absurd (hplace.symm.trans hout) nofun⟩
    · rename_i hplace
      obtain rfl := Option.some.inj ha
      refine ⟨fun hm => ?_, h.inflight, fun _ _ => ⟨_, rfl, rfl⟩, fun _ hhas => ?_,
        fun hout => absurd (hplace.symm.trans hout) nofun⟩
      · rcases h.tried hm with hmarker | ⟨-, hobject⟩
        · exact absurd (hplace.symm.trans hmarker) nofun
        · exact absurd hplace hobject
      · exact ⟨_, blob_getFinish hvalue hhas, rfl⟩
    all_goals cases ha
  | other _ | unstored _ | stored _ _ _ | redirect _ | closed _ _ => cases ha

/-- What the zone resolves to waits for what the context waits for. -/
theorem Told.marked {s : Visit} (h : Told s) (env : Env) :
    (resolve digest crc conf r base env s.zone s.ctx).Marked :=
  ⟨fun ht => (h.tried ht).done, h.inflight⟩

/-- A request that keeps its key reads the reply right. -/
theorem Told.readRight {s : Visit} (h : Told s) {env : Env}
    (hsteady : Steady digest r base s env (resolve digest crc conf r base env s.zone s.ctx)) :
    ReadRight digest r base s env (resolve digest crc conf r base env s.zone s.ctx) := by
  set c := resolve digest crc conf r base env s.zone s.ctx with hc
  have htried : c.takesMarker = true → s.ctx.markerL2Tried = true := fun htakes => by
    rw [Ctx.takesMarker, Bool.and_eq_true, Bool.and_eq_true] at htakes
    exact htakes.1.1
  have hnot : c.takesMarker = false → s.ctx.markerL2Tried = false := fun htakes => by
    refine Bool.eq_false_iff.2 fun ht => ?_
    have hwaits : c.markerL1Miss = true ∨ c.markerRevalidateInflight = true :=
      (Bool.eq_false_or_eq_true c.markerRevalidateInflight).elim Or.inr fun hi =>
        Or.inl (hsteady.missing ht hi)
    have hdone : c.l2Done = true := (h.tried ht).done
    rw [Ctx.takesMarker, show c.markerL2Tried = true from ht, hdone, Bool.or_eq_true_iff.2 hwaits]
      at htakes
    exact Bool.noConfusion htakes
  have hkey : (∃ marker, From marker s.result ∨ From marker s.blob) ∨ s.ctx.snapKeys ≠ [] →
      c.keyHash = s.ctx.keyHash := by
    refine fun hfrom => hsteady.key fun hout => ?_
    obtain ⟨hresult, hblob, hsnaps⟩ := h.fresh hout
    rcases hfrom with ⟨_, ⟨g, hg, -⟩ | ⟨g, hg, -⟩⟩ | hne
    · rw [hresult] at hg
      cases hg
    · rw [hblob] at hg
      cases hg
    · exact hne hsnaps
  exact {
    marker_miss := fun htakes _ => (h.tried (htried htakes)).result
    marker_blob := fun htakes hsome => by
      have hanswered := h.tried (htried htakes)
      refine hanswered.blob ?_
      rw [Ctx.markerReply] at hsome
      split_ifs at hsome with hok
      · refine ⟨hanswered.done, hok, fun hnone => ?_⟩
        rw [show c.l2Blob = none from hnone] at hsome
        cases hsome
      · cases hsome
    object_miss := fun htakes hmiss =>
      h.miss (hnot htakes) ((hasMiss_resolve digest crc conf r base).1 hmiss)
    object_blob := fun htakes hhas => h.blob (hnot htakes) ⟨hhas.done, hhas.result, hhas.blob⟩
    key_miss := fun hfrom _ => hkey (Or.inl ⟨_, Or.inl hfrom⟩)
    key_blob := fun hfrom _ => hkey (Or.inl ⟨_, Or.inr hfrom⟩)
    snaps := fun hne => ⟨hkey (Or.inr hne), hsteady.snaps hne⟩ }

/-- A pass leaves the flags as they should be. -/
theorem Told.leave {s : Visit} (h : Told s) {env : Env}
    (hsteady : Steady digest r base s env (resolve digest crc conf r base env s.zone s.ctx))
    {p : Pass} {e : End}
    (hover : Over digest base env (resolve digest crc conf r base env s.zone s.ctx) p e) :
    Flagged (s.leave (p, e)) := by
  set c := resolve digest crc conf r base env s.zone s.ctx with hc
  have hread := h.readRight crc conf r hsteady
  have hleft : FlagsLeft c p e := hover.flags hsteady.sent (h.marked crc conf r env)
  have htakes : p.ctx.markerL2Tried = false → p.ctx.l2Done = true → ¬p.ctx.Idle →
      c.takesMarker = false := by
    intro hno hdone hidle
    rcases hleft with ⟨-, ht⟩ | ⟨-, ⟨-, hidle'⟩ | ⟨hsame, -⟩⟩
    · exact absurd (hno.symm.trans ht) Bool.false_ne_true
    · exact Bool.eq_false_iff.2 fun ht => hidle (hidle' ht hdone)
    · rw [Ctx.takesMarker, ← hsame.tried, hno]
      rfl
  refine ⟨fun ht => ?_, fun hplace => ?_, fun hi => ?_, fun hno hmiss => ?_, fun hno hhas => ?_,
    fun hout => ?_⟩
  · rcases hleft with ⟨rfl, -⟩ | ⟨-, ⟨hclear, -⟩ | ⟨hsame, hasks⟩⟩
    · exact Or.inl rfl
    · exact absurd (hclear.1.symm.trans ht) Bool.false_ne_true
    · have hanswered := h.tried (hsame.tried.symm.trans ht)
      refine Or.inr ⟨⟨hsame.done.trans hanswered.done, hanswered.result, fun hhas => ?_⟩,
        fun hobject => ?_⟩
      · exact hanswered.blob ⟨hanswered.done, hsame.result.symm.trans hhas.result,
          fun hnone => hhas.blob (hsame.blob.trans hnone)⟩
      · obtain rfl : e = .parked .objectGet := place_parked hobject
        cases hasks
  · rcases hleft with ⟨-, ht⟩ | ⟨hne, -⟩
    · exact ht
    · exact absurd (place_parked hplace) hne
  · rcases hleft with ⟨-, ht⟩ | ⟨-, ⟨hclear, -⟩ | ⟨hsame, -⟩⟩
    · exact ht
    · exact absurd (hclear.2.symm.trans hi) Bool.false_ne_true
    · exact hsame.tried.trans (h.inflight (hsame.inflight.symm.trans hi))
  · have hidle : ¬p.ctx.Idle := by
      rintro (he | ⟨-, hs⟩)
      · cases hmiss.result.symm.trans he
      · exact absurd (hmiss.skipped.symm.trans hs) Bool.false_ne_true
    have hold := (hover.reply hmiss.done).resolve_left hidle
    exact hread.object_miss (htakes hno hmiss.done hidle) ⟨hold.done,
      hold.result.symm.trans hmiss.result, hold.skipped hmiss.skipped, hold.counted hmiss.counted⟩
  · have hidle : ¬p.ctx.Idle := by
      rintro (he | ⟨hd, -⟩)
      · cases hhas.result.symm.trans he
      · cases hhas.result.symm.trans hd
    have hold := (hover.reply hhas.done).resolve_left hidle
    obtain ⟨b, hb⟩ := Option.ne_none_iff_exists'.1 hhas.blob
    refine hread.object_blob (htakes hno hhas.done hidle) ⟨hold.done,
      hold.result.symm.trans hhas.result, ?_⟩
    rw [(hover.blob b hb).1]
    exact Option.some_ne_none b
  · cases e <;> cases hout

/-- An event that does not run the handler. -/
theorem Flagged.elsewhere {s : Visit} (h : Flagged s) (e : VisitEvent) :
    Flagged (s.elsewhere rb e) := by
  refine Visit.elsewhere_induction rb (fun others coldStored => ?_) (fun onlyIfCached => ?_)
    (fun now gaps => ?_) e
  · refine ⟨fun ht => (h.tried ht).imp_right (And.imp_left fun ha => ?_), h.waits, h.inflight,
      fun hm hmiss => h.miss hm ⟨hmiss.done, hmiss.result, hmiss.skipped, hmiss.counted⟩,
      fun hm hhas => h.blob hm ⟨hhas.done, hhas.result, hhas.blob⟩, h.fresh⟩
    exact ⟨ha.done, ha.result, fun hhas => ha.blob ⟨hhas.done, hhas.result, hhas.blob⟩⟩
  · exact ⟨nofun, nofun, nofun, fun _ hmiss => absurd hmiss.done Bool.false_ne_true,
      fun _ hhas => absurd hhas.done Bool.false_ne_true, fun _ => ⟨rfl, rfl, rfl⟩⟩
  · exact ⟨nofun, nofun, nofun, fun _ hmiss => absurd hmiss.done Bool.false_ne_true,
      fun _ hhas => absurd hhas.done Bool.false_ne_true, nofun⟩

/-- **One event**, of a request that keeps its key. -/
theorem undisturbed_step {s : Visit} (hs : Inv digest base s ∧ Flagged s) {e : VisitEvent}
    (hC : Undisturbed digest crc conf r base s e) :
    ReadsRight digest crc conf r base s e ∧
      Inv digest base (Visit.step rb digest crc conf r base s e) ∧
        Flagged (Visit.step rb digest crc conf r base s e) := by
  have hread : ReadsRight digest crc conf r base s e := fun a ha =>
    (hs.2.arrive hC.1 ha).readRight crc conf r (hC.2 a ha)
  refine ⟨hread, (hs.1.step rb crc conf r hread).2, ?_⟩
  unfold Visit.step
  cases ha : s.arrive e with
  | none =>
    exact hs.2.elsewhere rb e
  | some a =>
    obtain ⟨t, env⟩ := a
    have ht : Told t := hs.2.arrive hC.1 ha
    have hover := handler_uses rb digest crc conf r base env (p := t.pass) rfl
      ((hs.1.arrive ha).snaps_resolve crc conf r (hread (t, env) ha))
    exact ht.leave crc conf r (hC.2 (t, env) ha) hover

variable (digest base)

section Decide

instance (marker : Bool) (answered : Option Get) : Decidable (From marker answered) :=
  inferInstanceAs (Decidable (∃ g ∈ answered, g.marker = marker))

instance (e : VisitEvent) : Decidable e.Valued := by
  cases e <;> unfold VisitEvent.Valued <;> infer_instance

instance (s : Visit) (env : Env) (c : Ctx) : Decidable (Steady digest r base s env c) :=
  decidable_of_iff (env.markerSent = true ∧
      (s.place ≠ .outside → c.keyHash = s.ctx.keyHash) ∧
      (c.markerL2Tried = true → c.markerRevalidateInflight = false → c.markerL1Miss = true) ∧
      (s.ctx.snapKeys ≠ [] → requestKey digest r base env c = s.ctx.keyHash))
    ⟨fun h => ⟨h.1, h.2.1, h.2.2.1, h.2.2.2⟩, fun h => ⟨h.sent, h.key, h.missing, h.snaps⟩⟩

instance (s : Visit) (e : VisitEvent) : Decidable (Undisturbed digest crc conf r base s e) :=
  inferInstanceAs (Decidable (_ ∧ ∀ a ∈ s.arrive e, _))

instance (s : Visit) (res : Pass × End) : Decidable (UsedRight s res) :=
  decidable_of_iff ((∀ d ∈ res.1.deeds, ∀ k ∈ d.blobUse, s.blob.map Get.keyHash = some k) ∧
      (∀ d ∈ res.1.deeds, ∀ k ∈ d.resultUse, s.result.map Get.keyHash = some k) ∧
      ∀ k ∈ res.2.l2Keys res.1.ctx, k = res.1.ctx.keyHash)
    ⟨fun h => ⟨h.1, h.2.1, h.2.2⟩, fun h => ⟨h.blob, h.result, h.keys⟩⟩

instance (s : Visit) (e : VisitEvent) : Decidable (OnlyItsKey rb digest crc conf r base s e) :=
  inferInstanceAs (Decidable (∀ a ∈ s.arrive e, _))

end Decide

/-- A location with markers and Redis behind them. -/
def varyingConf : Conf where
  autoVary := true
  backend := .redis
  l2NegativeTtl := 0
  markerRevalidate := 0
  breaker := false
  minUses := 1
  minUsesWindow := 0
  lock := false
  backgroundUpdate := false

/-- A pass in which everything can be sent, and there is room. -/
def promptEnv (now : Time) : Env where
  now := now
  others := fun _ => []
  pool := ⟨true, true⟩
  l1 := ⟨80, 1000, true, true, false, false, none, false, false, 5, true, false, true⟩
  l1Reval := false
  markerSent := true
  objectSent := true
  lockSent := true
  lockRand := 7
  date := someDate
  l2FreshOk := true
  l2StaleOk := true
  snapRoom := true
  winnerRoom := true
  waitRoom := true
  brkState := 0
  brkWord := 0
  waitOver := false

/-- A response of three bytes, written at 990. -/
def greeting : Bytes :=
  blobHdrWrite ⟨0, 200, 0, 0, 3, 990, 60, 240, 0⟩ someDate.1 ++ [104, 105, 33]

/-- The second level has no marker, but has the response. -/
def greetedRun : List VisitEvent :=
  [.enter (promptEnv 1000), .reply .declined [] true (promptEnv 1001),
    .reply .ok greeting true (promptEnv 1002)]

/-- A marker that is published while its own `GET` is on its way. -/
def publishedRun : List VisitEvent :=
  let marker := markerBlob 990 someDate.1 varyLang 1 60 240
  [.enter (promptEnv 1000),
    .other (.op 1001 (.storeMarker (markerHash lengthDigest [47]) 0 marker 60 240)),
    .reply .ok marker true (promptEnv 1002)]

-- Its reply is promoted as the response of the variant.
example : ¬Run.Along (Visit.step Shm.Rbtree.unbalanced lengthDigest (fun _ => 0) varyingConf
      (bareRequest [47]) [47])
    (OnlyItsKey Shm.Rbtree.unbalanced lengthDigest (fun _ => 0) varyingConf (bareRequest [47]) [47])
    (.begin (.fresh roomyZone) false) publishedRun := by decide +kernel

end Access
end Http
end CacheTurbo
