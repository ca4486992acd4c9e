import BuilderPro.Sessiond.DaemonRuns

/-!
# Every listed session can be closed for good

A listed session that the supervisor tracks is closed by a `KillSession`.  One without a PTY is then
gone for good; one with a PTY leaves the row of its end behind, which stays listed and is a session
without a PTY after the next restart (`closable`).
-/

namespace BuilderPro

namespace ServerDeps

def Listed (d : ServerDeps) (id : String) : Prop := (d.listSessions.lookup id).isSome

variable {d e : ServerDeps} {id : String}

/-! ## What is listed -/

theorem overlay_id (m : SessionMeta) : (d.overlay m).id = m.id := by
  unfold overlay
  cases h : d.getMeta m.id with
  | none => rfl
  | some live => exact getMeta_id h

theorem foldl_overlay (ms : List SessionMeta) (byId : KeyedTable SessionMeta.id) :
    ((ms.foldl (fun byId m => byId.upsert (d.overlay m)) byId).lookup id).isSome ↔
      (byId.lookup id).isSome ∨ ∃ m ∈ ms, m.id = id := by
  induction ms generalizing byId with
  | nil => simp
  | cons m ms ih =>
    rw [List.foldl_cons, ih, KeyedTable.lookup_upsert, overlay_id]
    by_cases h : id = m.id
    · simp [h]
    · simp [h, Ne.symm h]

theorem foldl_tracked (ids : List String) (byId : KeyedTable SessionMeta.id) :
    ((ids.foldl d.listTracked byId).lookup id).isSome ↔
      (byId.lookup id).isSome ∨ id ∈ ids ∧ (d.tracked id).isSome := by
  induction ids generalizing byId with
  | nil => simp
  | cons id' ids ih =>
    rw [List.foldl_cons, ih, List.mem_cons, ← getMeta_isSome, listTracked]
    by_cases hin : (byId.lookup id').isSome
    · by_cases h : id = id'
      · simp [h, hin]
      · simp [h, hin]
    · rw [if_neg hin]
      cases hm : d.getMeta id' with
      | none =>
        by_cases h : id = id'
        · simp [h, hm]
        · simp [h]
      | some live =>
        by_cases h : id = id'
        · simp [h, hm, KeyedTable.lookup_upsert, getMeta_id hm]
        · simp [h, KeyedTable.lookup_upsert, getMeta_id hm]

theorem listed_iff : d.Listed id ↔ (d.db.sessions.lookup id).isSome ∨
    id ∈ d.liveSessions ∧ (d.tracked id).isSome := by
  unfold Listed listSessions
  dsimp only
  rw [foldl_tracked, foldl_overlay, Db.mem_listSessions]
  simp

theorem Listed.known (h : d.Listed id) : d.Known id := by
  rcases listed_iff.1 h with h | h
  · exact .inr (.inl h)
  · exact .inl h.2

/-- What is not known any more is never listed again. -/
theorem run_unlisted {ops : List Op} (hd : DaemonInv d) (hu : id ∈ d.usedIds) (hk : ¬ d.Known id)
    (h : run d ops = some e) : ¬ e.Listed id := by
  have : DaemonInv e ∧ id ∈ e.usedIds ∧ ¬ e.Known id := by
    refine Runs.run_keeps (I := fun d => DaemonInv d ∧ id ∈ d.usedIds ∧ ¬ d.Known id) ?_
      ⟨hd, hu, hk⟩ h
    rintro s op t ⟨hs, hu, hk⟩ ht
    obtain ⟨h1, h2, h3⟩ := step_inv hs ht
    exact ⟨h1, h2 hu, fun h => hk (h3 id hu h)⟩
  exact fun hl => this.2.2 hl.known

/-! ## Closing -/

theorem closeSession_ack {s : Session} (h : d.sessions.lookup id = some s) (status : ExitStatus) :
    (d.closeSession id status).2 = .ack := by
  unfold closeSession
  split
  · rfl
  · rename_i hk
    have hp : s.pty = none := by
      cases hp : s.pty with
      | none => rfl
      | some p =>
        refine absurd ?_ (kill_eq_none hk s.shared.workspaceId)
        rw [tracked_of_lookup h, hp]
        rfl
    simp [getMeta, h, Shared.getMeta, s.inactive hp]

/-- The honest close of a session without a PTY. -/
theorem closeSession_restored (hd : DaemonInv d) {s : Session}
    (h : d.sessions.lookup id = some s) (hp : s.pty = none) (status : ExitStatus) :
    ¬ (d.closeSession id status).1.Known id := by
  have htr : d.tracked id = some (s.shared.workspaceId, false) := by
    rw [tracked_of_lookup h, hp]
    rfl
  have hkill : d.kill id status = none := by
    cases hk : d.kill id status with
    | none => rfl
    | some e =>
      obtain ⟨⟨w, hw⟩, -⟩ := kill_eq_some hk
      rw [htr] at hw
      cases hw
  have hclose : (d.closeSession id status).1 = { d with
      attach := d.attach.filter (·.1 != id)
      sessions := d.sessions.erase id
      liveSessions := d.liveSessions.filter (· != id)
      db := d.db.deleteSession id } := by
    simp [closeSession, hkill, getMeta, h, Shared.getMeta, s.inactive hp, removeInactive]
  rw [hclose]
  rintro (hk | hk | ⟨f, hf, hid⟩)
  · rw [tracked_erase rfl, if_pos rfl] at hk
    cases hk
  · rw [Db.lookup_deleteSession, if_pos rfl] at hk
    cases hk
  · exact hd.quiet id _ htr f hf hid

/-- In every reachable state, a session the supervisor tracks is closed by a `KillSession`, one
without a PTY for good; and every session that is listed after a restart is one without a PTY. -/
theorem closable {ops : List Op} (h : run init ops = some d) (id : String) :
    (∀ s status, d.sessions.lookup id = some s →
      (d.closeSession id status).2 = .ack ∧
      (s.pty = none → ∀ ops' e, run (d.closeSession id status).1 ops' = some e → ¬ e.Listed id)) ∧
    ∀ stop, (d.restart stop).Listed id →
      ∃ s, (d.restart stop).sessions.lookup id = some s ∧ s.pty = none := by
  have hd := run_inv daemonInv_init h
  refine ⟨fun s status hs => ⟨closeSession_ack hs status, fun hp ops' e he => ?_⟩,
    fun stop hl => ?_⟩
  · have hev := evolves_closeSession (d := d) id status
    refine run_unlisted (hev.inv hd) ?_ (closeSession_restored hd hs hp status) he
    refine hev.usedIds ▸ hd.used id (.inl ?_)
    rw [tracked_of_lookup hs]
    rfl
  · obtain ⟨h1, h2, -, h4, -⟩ := restart_spec (d := d) stop
    have htr : ((d.restart stop).tracked id).isSome := by
      rcases listed_iff.1 hl with hl | hl
      · exact (h2 id).2 hl
      · exact hl.2
    cases hs : (d.restart stop).sessions.lookup id with
    | none => simp [tracked, hs] at htr
    | some s =>
      refine ⟨s, rfl, ?_⟩
      cases hp : s.pty with
      | none => rfl
      | some p =>
        refine absurd ?_ (h1 id s.shared.workspaceId)
        rw [tracked_of_lookup hs, hp]
        rfl

/-- A session that is created, and killed before the daemon crashes. -/
def killedRun : List Op :=
  [.createWorkspace "w", .createSession "w" (.ok ⟨"zsh", "/bin/zsh", "/", 80, 24⟩) "s" 0,
    .killSession "s" (.exited 0), .restart .crash]

theorem closable_killedRun : ∃ d s, run init killedRun = some d ∧
    d.sessions.lookup "s" = some s ∧ s.pty = none ∧
      ∀ ops' e, run (d.closeSession "s" (.exited 0)).1 ops' = some e → ¬ e.Listed "s" := by
  have hlast : (run init killedRun).map (fun d => (d.tracked "s", d.usedIds)) =
      some (some ("w", false), ["s"]) := by decide
  obtain ⟨d, hd, htr⟩ := Option.map_eq_some_iff.1 hlast
  obtain ⟨s, hs, hp⟩ := Option.map_eq_some_iff.1 (Prod.mk.inj htr).1
  have hpty : s.pty = none := by simpa using (Prod.mk.inj hp).2
  exact ⟨d, s, hd, hs, hpty, (((closable hd "s").1 s (.exited 0) hs).2 hpty)⟩

/-- A live session that is killed is listed as before: the row of its end stays. -/
theorem killed_session_listed : ¬ ∀ (ops : List Op) (d : ServerDeps), run init ops = some d →
    ∀ id, d.Listed id → ∀ status, (d.closeSession id status).2 ≠ noSuchSession id ∧
      ((d.closeSession id status).2 = .ack → ¬ (d.closeSession id status).1.Listed id ∧
        ∀ stop, ¬ ((d.closeSession id status).1.restart stop).Listed id) := by
  intro h
  let ops : List Op :=
    [.createWorkspace "w", .createSession "w" (.ok ⟨"zsh", "/bin/zsh", "/", 80, 24⟩) "s" 0]
  have hlast : (run init ops).map (fun d =>
      ((d.listSessions.lookup "s").isSome, (d.closeSession "s" (.exited 0)).2,
        ((d.closeSession "s" (.exited 0)).1.listSessions.lookup "s").isSome)) =
      some (true, .ack, true) := by decide
  obtain ⟨d, hd, hkill⟩ := Option.map_eq_some_iff.1 hlast
  simp only [Prod.mk.injEq] at hkill
  obtain ⟨hl, hack, hl'⟩ := hkill
  exact ((h ops d hd "s" hl (.exited 0)).2 hack).1 hl'

end ServerDeps

end BuilderPro
