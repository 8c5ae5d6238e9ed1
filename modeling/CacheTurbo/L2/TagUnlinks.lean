/-
# The `UNLINK`s of a tag purge

Which `UNLINK`s a purge has out, and which of its pages were acknowledged, changes in
two places only: a page that is delivered may send one, and the end of one may
acknowledge its page (`unlinks_step`).  Everything else the code does is `Calm`.
-/

import CacheTurbo.L2.TagPurgeInv

namespace CacheTurbo
namespace L2
namespace TagPurge

open Bytes Incremental

/-- The `UNLINK`s that are out are still the same ones, and no page was acknowledged. -/
structure Calm (s t : State) : Prop where
  unlinks : ∀ u ∈ t.unlinks, ∃ v ∈ s.unlinks, v.members = u.members ∧ v.keys = u.keys
  acks : acked t.log = acked s.log

theorem Calm.refl (s : State) : Calm s s := ⟨fun u hu => ⟨u, hu, rfl, rfl⟩, rfl⟩

theorem Calm.trans {s t u : State} (h : Calm s t) (h' : Calm t u) : Calm s u where
  unlinks v hv := by
    obtain ⟨w, hw, hmembers, hkeys⟩ := h'.unlinks v hv
    obtain ⟨x, hx, hmembers', hkeys'⟩ := h.unlinks w hw
    exact ⟨x, hx, hmembers'.trans hmembers, hkeys'.trans hkeys⟩
  acks := h'.acks.trans h.acks

/-- Neither changes. -/
theorem Calm.of_eq {s t : State} (hunlinks : t.unlinks = s.unlinks) (hlog : acked t.log = acked s.log) :
    Calm s t :=
  ⟨fun u hu => ⟨u, hunlinks ▸ hu, rfl, rfl⟩, hlog⟩

/-- What comes before changes neither. -/
theorem Calm.before {s t u : State} (h : Calm t u) (hunlinks : t.unlinks = s.unlinks)
    (hlog : acked t.log = acked s.log) : Calm s u :=
  Calm.trans (.of_eq hunlinks hlog) h

theorem calm_destroyPool (s : State) (p : Option ℕ) : Calm s (s.destroyPool p) := by
  cases p with
  | none => exact Calm.refl s
  | some p => exact .of_eq rfl rfl

theorem calm_opDone (s : State) : Calm s (opDone s) := .of_eq rfl rfl

theorem calm_walkFinish (env : Env) (s : State) : Calm s (walkFinish env s) := by
  unfold walkFinish
  split_ifs
  · exact calm_opDone s
  · exact .of_eq rfl rfl

theorem calm_sscanAdvance (env : Env) (cursor : Bytes) (s : State) :
    Calm s (sscanAdvance env cursor s) := by
  unfold sscanAdvance
  dsimp only
  split_ifs
  · exact (calm_walkFinish env _).before rfl rfl
  · exact (calm_walkFinish env _).before rfl rfl
  · exact (calm_walkFinish env _).before rfl rfl
  · exact (calm_walkFinish env _).before rfl rfl
  · exact (calm_walkFinish env _).before rfl rfl
  · exact (calm_walkFinish env _).before rfl rfl
  · exact .of_eq rfl rfl

theorem calm_sscanResume (env : Env) (rc : Bool) (s : State) : Calm s (sscanResume env rc s) := by
  unfold sscanResume
  dsimp only
  split_ifs
  · exact Calm.refl s
  · exact (calm_opDone _).before rfl rfl
  · exact (calm_walkFinish env _).before rfl rfl
  · exact (calm_sscanAdvance env _ _).before rfl rfl

theorem calm_walkDetach (s : State) : Calm s (walkDetach s) := by
  unfold walkDetach
  dsimp only
  split_ifs
  · exact Calm.refl s
  · exact .of_eq rfl rfl
  · exact (calm_opDone _).before rfl rfl

theorem calm_pageSettle (conf : Conf) (env : Env) (rc : Bool) (s : State) :
    Calm s (pageSettle conf env rc s).1 := by
  -- the page is let go of, whatever was said of it
  have hend : ∀ {t : State}, t.unlinks = s.unlinks → acked t.log = acked s.log →
      Calm s { t.destroyPool t.purge.pagePool with
        purge.pagePool := none
        purge.pageMembers := [] } := by
    intro t hunlinks hlog
    have hpool := calm_destroyPool t t.purge.pagePool
    exact Calm.before ⟨hpool.unlinks, hpool.acks⟩ hunlinks hlog
  unfold pageSettle
  dsimp only
  split_ifs with hrc
  · cases cmdMany conf env.srem true s.purge.pageMembers with
    | ok => exact hend rfl rfl
    | error => exact hend rfl rfl
    | launched expected => exact hend rfl rfl
  · exact hend rfl rfl

theorem calm_pageUnlinked (conf : Conf) (env : Env) (u : Unlink) (rc : Bool) (s : State) :
    Calm s (pageUnlinked conf env u rc s) := by
  unfold pageUnlinked
  dsimp only
  split_ifs
  · exact (calm_destroyPool s _).trans (calm_sscanResume env _ _)
  · exact calm_destroyPool s _
  · exact (calm_pageSettle conf env rc s).trans
      ((calm_sscanResume env _ _).before rfl rfl)
  · exact (calm_pageSettle conf env rc s).trans (.of_eq rfl rfl)

theorem calm_pageUnlinkedLocally (conf : Conf) (env : Env) (rc : Bool) (s : State) :
    Calm s (pageUnlinkedLocally conf env rc s).1 := by
  unfold pageUnlinkedLocally
  dsimp only
  split_ifs
  · exact (calm_pageSettle conf env rc s).trans (.of_eq rfl rfl)
  · exact calm_pageSettle conf env rc s

/-- A page that is delivered: what its `UNLINK` names. -/
structure Sends (conf : Conf) (env : Env) (members : List Bytes) (s t : State) : Prop where
  unlinks : ∀ u ∈ t.unlinks, (∃ v ∈ s.unlinks, v.members = u.members ∧ v.keys = u.keys) ∨
    env.tmp = true ∧ env.delkeys = true ∧ u.members = members ∧
      pageKeys conf.prefixBytes members env.lockbufs = some u.keys
  acks : acked t.log = acked s.log

theorem Calm.sends {conf : Conf} {env : Env} {members : List Bytes} {s t : State} (h : Calm s t) :
    Sends conf env members s t :=
  ⟨fun u hu => Or.inl (h.unlinks u hu), h.acks⟩

theorem Sends.calm {conf : Conf} {env : Env} {members : List Bytes} {s t t' : State}
    (h : Sends conf env members s t) (h' : Calm t t') : Sends conf env members s t' where
  unlinks u hu := by
    obtain ⟨v, hv, hmembers, hkeys⟩ := h'.unlinks u hu
    rcases h.unlinks v hv with ⟨w, hw, hmembers', hkeys'⟩ | ⟨htmp, hdel, hms, hpage⟩
    · exact Or.inl ⟨w, hw, hmembers'.trans hmembers, hkeys'.trans hkeys⟩
    · exact Or.inr ⟨htmp, hdel, hmembers ▸ hms, hkeys ▸ hpage⟩
  acks := h'.acks.trans h.acks

theorem sends_deliverPage (conf : Conf) (env : Env) (members : List Bytes) (s : State) :
    Sends conf env members s (deliverPage conf env members s).1 := by
  have hnote : Calm s (s.note (.page members)) := .of_eq rfl rfl
  have hfailed : ∀ {t : State} {p : Option ℕ}, t.unlinks = s.unlinks → acked t.log = acked s.log →
      Sends conf env members s (t.destroyPool p) := fun hunlinks hlog =>
    ((calm_destroyPool _ _).before hunlinks hlog).sends
  have hlocal : ∀ {t : State} (rc : Bool), t.unlinks = s.unlinks → acked t.log = acked s.log →
      Sends conf env members s (pageUnlinkedLocally conf env rc t).1 := fun rc hunlinks hlog =>
    ((calm_pageUnlinkedLocally conf env rc _).before hunlinks hlog).sends
  unfold deliverPage
  dsimp only
  by_cases htmp : env.tmp = false
  · rw [if_pos htmp]
    exact hnote.sends
  rw [if_neg htmp]
  by_cases hdel : env.delkeys = false
  · rw [if_pos hdel]
    dsimp only
    exact hfailed rfl rfl
  rw [if_neg hdel]
  cases hkeys : pageKeys conf.prefixBytes members env.lockbufs with
  | none =>
    dsimp only
    exact hfailed rfl rfl
  | some keys =>
    dsimp only
    by_cases hsuspended : (s.note (.page members)).walk.suspended = true
    · rw [if_pos hsuspended]
      dsimp only
      exact hfailed rfl rfl
    rw [if_neg hsuspended]
    rw [Bool.not_eq_false] at htmp hdel
    have hsent : ∀ {u : Unlink} {us : List Unlink}, us = s.unlinks ++ [u] → u.members = members →
        u.keys = keys → ∀ v ∈ us, (∃ w ∈ s.unlinks, w.members = v.members ∧ w.keys = v.keys) ∨
          env.tmp = true ∧ env.delkeys = true ∧ v.members = members ∧
            pageKeys conf.prefixBytes members env.lockbufs = some v.keys := by
      rintro u us rfl hmembers hnamed v hv
      rcases List.mem_append.1 hv with hv | hv
      · exact Or.inl ⟨v, hv, rfl, rfl⟩
      · obtain rfl := List.mem_singleton.1 hv
        exact Or.inr ⟨htmp, hdel, hmembers, hnamed ▸ hkeys⟩
    cases cmdMany conf env.unlink false keys with
    | ok =>
      dsimp only
      exact hlocal _ rfl rfl
    | error =>
      dsimp only
      exact hlocal _ rfl rfl
    | launched expected =>
      dsimp only
      split_ifs
      · exact ⟨hkeys ▸ hsent rfl rfl rfl, rfl⟩
      · exact ⟨hkeys ▸ hsent rfl rfl rfl, rfl⟩

theorem sends_readSscan (conf : Conf) (env : Env) (r : SscanRead) (s : State) :
    Calm s (readSscan conf env r s) ∨
      ∃ cursor members, r = .page cursor members ∧
        Sends conf env members s (readSscan conf env r s) := by
  unfold readSscan
  by_cases hsuspended : s.walk.suspended = true
  · rw [if_pos hsuspended]
    refine Or.inl ?_
    split_ifs
    · exact .of_eq rfl rfl
    · exact Calm.refl s
  rw [if_neg hsuspended]
  cases r with
  | timedout => exact Or.inl (calm_walkFinish env s)
  | failed => exact Or.inl (calm_walkFinish env s)
  | again => exact Or.inl (Calm.refl s)
  | page cursor members =>
    dsimp only
    by_cases hnil : members = []
    · rw [if_pos hnil]
      exact Or.inl ((calm_sscanAdvance env _ _).before rfl rfl)
    rw [if_neg hnil]
    refine Or.inr ⟨cursor, members, rfl, ?_⟩
    have hreceived : Calm s (s.note (.received cursor members)) := .of_eq rfl rfl
    have hsends := sends_deliverPage conf env members (s.note (.received cursor members))
    have hdelivered : Sends conf env members s
        (deliverPage conf env members (s.note (.received cursor members))).1 :=
      ⟨fun u hu => (hsends.unlinks u hu), hsends.acks.trans hreceived.acks⟩
    generalize deliverPage conf env members (s.note (.received cursor members)) = d at hdelivered
    obtain ⟨t, rc⟩ := d
    cases rc with
    | error => exact hdelivered.calm (calm_walkFinish env _)
    | done => exact hdelivered.calm (calm_sscanAdvance env _ _)
    | again =>
      dsimp only
      split_ifs
      · exact hdelivered.calm ((calm_walkFinish env _).before rfl rfl)
      · exact hdelivered.calm (.of_eq rfl rfl)
      · exact hdelivered.calm (.of_eq rfl rfl)

/-- The page that an event reads. -/
def Event.page : Event → Option (List Bytes)
  | .read (.page _ members) => some members
  | .write _ _ _ (.page _ members) => some members
  | _ => none

theorem sends_walkWrite (handleWriteEvent : Bool → Bool → Bool) (conf : Conf) (env : Env)
    (timedout : Bool) (sent : SendRc) (syscall : Bool) (r : SscanRead) (s : State) :
    Calm s (walkWrite handleWriteEvent conf env timedout sent syscall r s) ∨
      ∃ cursor members, r = .page cursor members ∧
        Sends conf env members s (walkWrite handleWriteEvent conf env timedout sent syscall r s) := by
  unfold walkWrite
  dsimp only
  split_ifs
  · exact Or.inl (calm_walkFinish env s)
  · exact Or.inl (calm_walkFinish env s)
  · exact Or.inl (.of_eq rfl rfl)
  · exact Or.inl (calm_walkFinish env s)
  · -- the command is sent, and the reader runs
    have hsent : ∀ {t : State}, t.unlinks = s.unlinks → acked t.log = acked s.log →
        Calm s (readSscan conf env r t) ∨ ∃ cursor members, r = .page cursor members ∧
          Sends conf env members s (readSscan conf env r t) := by
      intro t hunlinks hlog
      have hcalm : Calm s t := .of_eq hunlinks hlog
      rcases sends_readSscan conf env r t with h | ⟨cursor, members, hr, h⟩
      · exact Or.inl (hcalm.trans h)
      · exact Or.inr ⟨cursor, members, hr, ⟨fun u hu => hunlinks ▸ h.unlinks u hu,
          h.acks.trans hlog⟩⟩
    exact hsent rfl rfl
  · exact Or.inl ((calm_walkFinish env _).before rfl rfl)

theorem calm_runCleanups (s : State) : Calm s (runCleanups s) := by
  have hdead : Calm s { s with
      unlinks := s.unlinks.map fun u => if u.cln then { u with alive := false, cln := false } else u } := by
    refine ⟨fun u hu => ?_, rfl⟩
    obtain ⟨v, hv, rfl⟩ := List.mem_map.1 hu
    refine ⟨v, hv, ?_⟩
    split_ifs
    · exact ⟨rfl, rfl⟩
    · exact ⟨rfl, rfl⟩
  unfold runCleanups
  dsimp only
  split_ifs
  · exact hdead.trans (calm_walkDetach _)
  · exact hdead

/-- **What an event does to the `UNLINK`s.**  It sends one for the page it reads, or ends one and
acknowledges its page, where its replies are right; or nothing. -/
theorem unlinks_step (handleWriteEvent : Bool → Bool → Bool) (conf : Conf) (s : State) (env : Env)
    (e : Event) :
    Calm s (step handleWriteEvent conf s (env, e)) ∨
      (∃ members, e.page = some members ∧
        Sends conf env members s (step handleWriteEvent conf s (env, e))) ∨
      ∃ k u ev d clean, e = .unlink k ev ∧ s.unlinks[k]? = some u ∧
        drainEvent u.drain ev = .done d clean ∧
        (∀ v ∈ (step handleWriteEvent conf s (env, e)).unlinks,
          ∃ w ∈ s.unlinks, w.members = v.members ∧ w.keys = v.keys) ∧
        ((acked (step handleWriteEvent conf s (env, e)).log = acked s.log) ∨
          RepliesOk d.expected d.recv ∧
            acked (step handleWriteEvent conf s (env, e)).log = u.members :: acked s.log) := by
  cases e with
  | refused =>
    simp only [step]
    split_ifs
    · exact Or.inl (calm_walkFinish env s)
    · exact Or.inl (Calm.refl s)
  | write timedout sent syscall r =>
    simp only [step]
    split_ifs
    · rcases sends_walkWrite handleWriteEvent conf env timedout sent syscall r s with
        h | ⟨cursor, members, rfl, h⟩
      · exact Or.inl h
      · exact Or.inr (Or.inl ⟨members, rfl, h⟩)
    · exact Or.inl (Calm.refl s)
  | read r =>
    simp only [step]
    split_ifs
    · rcases sends_readSscan conf env r s with h | ⟨cursor, members, rfl, h⟩
      · exact Or.inl h
      · exact Or.inr (Or.inl ⟨members, rfl, h⟩)
    · exact Or.inl (Calm.refl s)
  | unlink k ev =>
    simp only [step]
    cases hu : s.unlinks[k]? with
    | none => exact Or.inl (Calm.refl s)
    | some u =>
      dsimp only
      have hmem : u ∈ s.unlinks := List.mem_of_getElem? hu
      unfold unlinkEvent
      cases hd : drainEvent u.drain ev with
      | live d =>
        refine Or.inl ⟨fun v hv => ?_, rfl⟩
        rcases List.mem_or_eq_of_mem_set hv with hv | rfl
        · exact ⟨v, hv, rfl, rfl⟩
        · exact ⟨u, hmem, rfl, rfl⟩
      | done d clean =>
        dsimp only
        have hcalm := calm_pageUnlinked conf env u (drainVerdict d clean)
          (({ s with unlinks := s.unlinks.eraseIdx k }).note
            (.unlinked u.members u.keys d.expected d.recv))
        refine Or.inr (Or.inr ⟨k, u, ev, d, clean, rfl, hu, hd, fun v hv => ?_, ?_⟩)
        · obtain ⟨w, hw, hsame⟩ := hcalm.unlinks v hv
          exact ⟨w, List.mem_of_mem_eraseIdx hw, hsame⟩
        · rw [hcalm.acks]
          by_cases hok : RepliesOk d.expected d.recv
          · refine Or.inr ⟨hok, ?_⟩
            simp only [State.note, acked, List.filterMap_cons, if_pos hok]
          · refine Or.inl ?_
            simp only [State.note, acked, List.filterMap_cons, if_neg hok]
  | destroyRequest =>
    simp only [step]
    cases s.request with
    | parked => exact Or.inl ((calm_runCleanups _).before rfl rfl)
    | finalized => exact Or.inl ((calm_runCleanups _).before rfl rfl)
    | terminated => exact Or.inl (Calm.refl s)
    | released => exact Or.inl (Calm.refl s)

end TagPurge
end L2
end CacheTurbo
