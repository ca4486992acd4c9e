import BuilderPro.Sessiond.Daemon

/-!
# What the daemon's operations do to the sessions it knows

Between two restarts, every operation but the creation of a session drops sessions from the map or
leaves them there, with the workspace and the PTY they have, and writes rows only of sessions the
daemon knows already (`Evolves`).
-/

namespace BuilderPro

namespace Shared

variable (sh : Shared)

theorem record_key (ev : OscEvent) (now : Int) :
    (sh.record ev now).id = sh.id ∧ (sh.record ev now).workspaceId = sh.workspaceId := by
  cases ev <;> exact ⟨rfl, rfl⟩

theorem readChunk_key (evs : List OscEvent) (chunk : List UInt8) (now : Int) :
    (sh.readChunk evs chunk now).id = sh.id ∧
      (sh.readChunk evs chunk now).workspaceId = sh.workspaceId := by
  unfold readChunk
  induction evs generalizing sh with
  | nil => exact ⟨rfl, rfl⟩
  | cons ev evs ih =>
    obtain ⟨h1, h2⟩ := (sh.advance ev).record_key ev now
    obtain ⟨h3, h4⟩ := ih ((sh.advance ev).record ev now)
    exact ⟨h3.trans h1, h4.trans h2⟩

end Shared

namespace ServerDeps

/-- The workspace of a session in the supervisor's map, and whether it has a PTY. -/
def tracked (d : ServerDeps) (id : String) : Option (String × Bool) :=
  (d.sessions.lookup id).map fun s => (s.shared.workspaceId, s.pty.isSome)

/-- The session is in the map, has a row, or is to be written once more. -/
def Known (d : ServerDeps) (id : String) : Prop :=
  (d.tracked id).isSome ∨ (d.db.sessions.lookup id).isSome ∨
    ∃ f ∈ d.finalFlushes, f.sessionMeta.id = id

/-- What an operation does that creates no session and ends no process. -/
structure Evolves (d e : ServerDeps) : Prop where
  tracked : ∀ id, e.tracked id = d.tracked id ∨ e.tracked id = none
  known : ∀ id, e.Known id → d.Known id
  flushes : ∀ f ∈ e.finalFlushes, f ∈ d.finalFlushes ∨
    ∃ w, d.tracked f.sessionMeta.id = some (w, true)
  live : ∀ id ∈ d.liveSessions, (∃ w, e.tracked id = some (w, true)) → id ∈ e.liveSessions
  liveSub : ∀ id ∈ e.liveSessions, id ∈ d.liveSessions
  workspaces : ∀ w ∈ e.db.workspaces, w ∈ d.db.workspaces
  usedIds : e.usedIds = d.usedIds

variable {d e e' : ServerDeps} {id : String} {w : String}

theorem Evolves.refl (d : ServerDeps) : Evolves d d :=
  ⟨fun _ => .inl rfl, fun _ h => h, fun _ h => .inl h, fun _ h _ => h, fun _ h => h,
    fun _ h => h, rfl⟩

theorem Evolves.tracked_some (h : Evolves d e) {p : String × Bool} (hp : e.tracked id = some p) :
    d.tracked id = some p := by
  rcases h.tracked id with ht | ht
  · exact ht.symm.trans hp
  · rw [hp] at ht
    cases ht

theorem Evolves.trans (h : Evolves d e) (h' : Evolves e e') : Evolves d e' where
  tracked id := by
    rcases h'.tracked id with ht | ht
    · rw [ht]
      exact h.tracked id
    · exact .inr ht
  known id hk := h.known id (h'.known id hk)
  flushes f hf := by
    rcases h'.flushes f hf with hf | ⟨w, hw⟩
    · exact h.flushes f hf
    · exact .inr ⟨w, h.tracked_some hw⟩
  live id hl := fun ⟨w, hw⟩ => h'.live id (h.live id hl ⟨w, h'.tracked_some hw⟩) ⟨w, hw⟩
  liveSub id hl := h.liveSub id (h'.liveSub id hl)
  workspaces w hw := h.workspaces w (h'.workspaces w hw)
  usedIds := h'.usedIds.trans h.usedIds

theorem Evolves.foldl {α : Type*} {f : ServerDeps → α → ServerDeps}
    (hf : ∀ d a, Evolves d (f d a)) (as : List α) (d : ServerDeps) : Evolves d (as.foldl f d) := by
  induction as generalizing d with
  | nil => exact .refl d
  | cons a as ih => exact (hf d a).trans (ih (f d a))

theorem getMeta_id {m : SessionMeta} (h : d.getMeta id = some m) : m.id = id := by
  obtain ⟨s, hs, rfl⟩ := Option.map_eq_some_iff.1 h
  exact (KeyedTable.key_eq hs :)

theorem getMeta_isSome : (d.getMeta id).isSome = (d.tracked id).isSome := by
  simp [getMeta, tracked]

theorem belongs_iff : d.belongs w id ↔ ∃ p, d.tracked id = some (w, p) := by
  unfold belongs getMeta tracked
  cases h : d.sessions.lookup id with
  | none => simp
  | some s => simp [Shared.getMeta]

/-! ## Operations on the map -/

/-- An operation that changes nothing but the sessions' own state. -/
theorem evolves_sessions (hs : ∀ id, e.tracked id = d.tracked id) (hdb : e.db = d.db)
    (hf : e.finalFlushes = d.finalFlushes) (hl : e.liveSessions = d.liveSessions)
    (hu : e.usedIds = d.usedIds) : Evolves d e where
  tracked id := .inl (hs id)
  known id := by
    unfold Known
    rw [hs, hdb, hf]
    exact fun h => h
  flushes f h := .inl (hf ▸ h)
  live id h _ := hl ▸ h
  liveSub id h := hl ▸ h
  workspaces w h := hdb ▸ h
  usedIds := hu

theorem tracked_modify {f : Session → Session} (hid : ∀ s, (f s).id = s.id)
    (hw : ∀ s, (f s).shared.workspaceId = s.shared.workspaceId)
    (hp : ∀ s, (f s).pty.isSome = s.pty.isSome) (id' : String)
    (he : e.sessions = d.sessions.modify id' f) : e.tracked id = d.tracked id := by
  unfold tracked
  rw [he, KeyedTable.lookup_modify hid]
  split_ifs
  · cases d.sessions.lookup id <;> simp [hw, hp]
  · rfl

theorem evolves_output (id : String) (chunk : List UInt8) (now : Int) :
    Evolves d (d.output id chunk now) := by
  refine evolves_sessions (fun id' => tracked_modify ?_ ?_ ?_ id rfl) rfl rfl rfl rfl
  all_goals
    intro s
    split
    · rename_i p hp
      split_ifs
      · rfl
      · first
        | exact (Shared.readChunk_key _ _ _ _).1
        | exact (Shared.readChunk_key _ _ _ _).2
        | simp [Session.withPty, hp]
    · rfl

theorem evolves_eof (id : String) : Evolves d (d.eof id) := by
  refine evolves_sessions (fun id' => tracked_modify ?_ ?_ ?_ id rfl) rfl rfl rfl rfl
  all_goals
    intro s
    split
    · rename_i p hp
      first
      | rfl
      | simp [Session.withPty, hp]
    · rfl

theorem evolves_tick (id : String) (g : Signals) : Evolves d (d.tick id g) := by
  refine evolves_sessions (fun id' => tracked_modify ?_ ?_ ?_ id rfl) rfl rfl rfl rfl
  all_goals
    intro s
    split_ifs <;> rfl

theorem tracked_upsert {s : Session} (he : e.sessions = d.sessions.upsert s) :
    e.tracked id =
      if id = s.id then some (s.shared.workspaceId, s.pty.isSome) else d.tracked id := by
  unfold tracked
  rw [he, KeyedTable.lookup_upsert]
  split_ifs <;> rfl

theorem tracked_erase {id' : String} (he : e.sessions = d.sessions.erase id') :
    e.tracked id = if id = id' then none else d.tracked id := by
  unfold tracked
  rw [he, KeyedTable.lookup_erase]
  split_ifs <;> rfl

theorem tracked_of_lookup {s : Session} (h : d.sessions.lookup id = some s) :
    d.tracked id = some (s.shared.workspaceId, s.pty.isSome) := by
  simp [tracked, h]

/-- Putting a session back with the workspace and the PTY it has. -/
theorem tracked_put {s s' : Session} (h : d.sessions.lookup id = some s) (hid : s'.id = s.id)
    (hw : s'.shared.workspaceId = s.shared.workspaceId) (hp : s'.pty.isSome = s.pty.isSome)
    (he : e.sessions = d.sessions.upsert s') (id' : String) : e.tracked id' = d.tracked id' := by
  rw [tracked_upsert he]
  split_ifs with heq
  · rw [heq, hid, KeyedTable.key_eq h, tracked_of_lookup h, hw, hp]
  · rfl

theorem evolves_childExits (id : String) (status : ExitStatus) :
    Evolves d (d.childExits id status) := by
  unfold childExits
  split
  · rename_i sh p hi h
    split_ifs
    · exact .refl d
    · have hsh : sh.id = id := (KeyedTable.key_eq h :)
      refine ⟨fun id' => .inl (tracked_put h (by rfl) (by rfl) (by rfl) rfl id'),
        fun id' hk => ?_, fun f hf => ?_, fun _ h _ => h, fun _ h => h, fun _ h => h, rfl⟩
      · rcases hk with hk | hk | ⟨f, hf, hid⟩
        · refine .inl ?_
          rwa [tracked_put h (by rfl) (by rfl) (by rfl) rfl id'] at hk
        · exact .inr (.inl hk)
        · rcases List.mem_append.1 hf with hf | hf
          · exact .inr (.inr ⟨f, hf, hid⟩)
          · obtain rfl := List.mem_singleton.1 hf
            refine .inl ?_
            rw [← hid, show (sh.recordExit status.record).getMeta.id = id from hsh,
              tracked_of_lookup h]
            rfl
      · rcases List.mem_append.1 hf with hf | hf
        · exact .inl hf
        · obtain rfl := List.mem_singleton.1 hf
          refine .inr ⟨sh.workspaceId, ?_⟩
          rw [show (sh.recordExit status.record).getMeta.id = id from hsh, tracked_of_lookup h]
          rfl
  · exact .refl d

/-- Dropping a session from the map, and its id from the live sessions. -/
theorem evolves_erase (hs : e.sessions = d.sessions.erase id) (hdb : e.db = d.db)
    (hf : e.finalFlushes = d.finalFlushes) (hl : e.liveSessions = d.liveSessions)
    (hu : e.usedIds = d.usedIds) : Evolves d e where
  tracked id' := by
    rw [tracked_erase hs]
    split_ifs
    · exact .inr rfl
    · exact .inl rfl
  known id' := by
    unfold Known
    rw [tracked_erase hs, hdb, hf]
    refine Or.imp_left fun h => ?_
    split_ifs at h with heq
    · cases h
    · exact h
  flushes f h := .inl (hf ▸ h)
  live id' h _ := hl ▸ h
  liveSub id' h := hl ▸ h
  workspaces w h := hdb ▸ h
  usedIds := hu

theorem kill_eq_some {status : ExitStatus} (h : d.kill id status = some e) :
    (∃ w, d.tracked id = some (w, true)) ∧ e.tracked id = none ∧ Evolves d e := by
  unfold kill at h
  split at h <;> cases h
  rename_i sh p hi hs
  refine ⟨⟨sh.workspaceId, tracked_of_lookup hs⟩, ?_, ?_⟩
  · rw [tracked_erase rfl, if_pos rfl]
  · exact (evolves_childExits id status).trans (evolves_erase rfl rfl rfl rfl rfl)

theorem kill_eq_none {status : ExitStatus} (h : d.kill id status = none) (w : String) :
    d.tracked id ≠ some (w, true) := by
  unfold kill at h
  split at h
  · cases h
  · rename_i hs
    unfold tracked
    rcases hl : d.sessions.lookup id with _ | ⟨sh, _ | p, hi⟩
    · simp
    · simp
    · exact absurd hl (hs sh p hi)

theorem evolves_removeInactive (id : String) : Evolves d (d.removeInactive id) := by
  unfold removeInactive
  split
  · split_ifs
    · exact .refl d
    · exact evolves_erase rfl rfl rfl rfl rfl
  · exact .refl d

/-! ## Operations on the rows -/

/-- Writing rows of a session the daemon knows. -/
theorem evolves_rows (hs : ∀ id, e.tracked id = d.tracked id)
    (hr : ∀ id, (e.db.sessions.lookup id).isSome → d.Known id)
    (hw : ∀ w ∈ e.db.workspaces, w ∈ d.db.workspaces)
    (hf : ∀ f ∈ e.finalFlushes, f ∈ d.finalFlushes) (hl : e.liveSessions = d.liveSessions)
    (hu : e.usedIds = d.usedIds) : Evolves d e where
  tracked id := .inl (hs id)
  known id := by
    rintro (h | h | ⟨f, h, hid⟩)
    · exact .inl (hs id ▸ h)
    · exact hr id h
    · exact .inr (.inr ⟨f, hf f h, hid⟩)
  flushes f h := .inl (hf f h)
  live id h _ := hl ▸ h
  liveSub id h := hl ▸ h
  workspaces := hw
  usedIds := hu

theorem flushSessionFinal_row {db : Db} {f : FinalFlush}
    (h : ((db.flushSessionFinal f).sessions.lookup id).isSome) :
    (db.sessions.lookup id).isSome ∨ f.sessionMeta.id = id := by
  simp only [Db.flushSessionFinal, Db.sessions_tryAppendCommandEvents,
    Db.sessions_tryAppendScrollback, Db.lookup_tryUpsertSession] at h
  split_ifs at h with hid
  · exact .inr hid.2.symm
  · exact .inl h

@[simp] theorem flushSessionFinal_workspaces {db : Db} {f : FinalFlush} :
    (db.flushSessionFinal f).workspaces = db.workspaces := by
  simp [Db.flushSessionFinal]

theorem foldl_flushSessionFinal {fs : List FinalFlush} {db : Db} :
    (((fs.foldl Db.flushSessionFinal db).sessions.lookup id).isSome →
      (db.sessions.lookup id).isSome ∨ ∃ f ∈ fs, f.sessionMeta.id = id) ∧
    (fs.foldl Db.flushSessionFinal db).workspaces = db.workspaces := by
  induction fs generalizing db with
  | nil => exact ⟨.inl, rfl⟩
  | cons f fs ih =>
    obtain ⟨h1, h2⟩ := @ih (db.flushSessionFinal f)
    refine ⟨fun h => ?_, h2.trans flushSessionFinal_workspaces⟩
    rcases h1 h with h | ⟨g, hg, hid⟩
    · rcases flushSessionFinal_row h with h | hid
      · exact .inl h
      · exact .inr ⟨f, List.mem_cons_self, hid⟩
    · exact .inr ⟨g, List.mem_cons_of_mem _ hg, hid⟩

theorem evolves_runFinalFlush (i : ℕ) : Evolves d (d.runFinalFlush i) := by
  unfold runFinalFlush
  split
  · rename_i f hf
    refine evolves_rows (fun _ => rfl) (fun id h => ?_) (by simp)
      (fun _ h => List.mem_of_mem_eraseIdx h) rfl rfl
    rcases flushSessionFinal_row h with h | hid
    · exact .inr (.inl h)
    · exact .inr (.inr ⟨f, List.mem_of_getElem? hf, hid⟩)
  · exact .refl d

theorem evolves_awaitPendingFinalFlushes : Evolves d d.awaitPendingFinalFlushes := by
  refine evolves_rows (fun _ => rfl) (fun id h => ?_) (fun w hw => ?_) (fun _ h => ?_) rfl rfl
  · exact .inr (foldl_flushSessionFinal.1 h)
  · have hrest : (d.finalFlushes.foldl Db.flushSessionFinal d.db).workspaces = d.db.workspaces :=
      (@foldl_flushSessionFinal w _ _).2
    exact hrest ▸ hw
  · cases h

theorem evolves_sweepSession (id : String) : Evolves d (d.sweepSession id) := by
  unfold sweepSession
  split
  · rename_i s hs
    split_ifs
    · refine evolves_rows (tracked_put hs (by rfl) (by rfl) (by rfl) rfl) (fun id' h => ?_)
        (by simp) (fun _ h => h) rfl rfl
      simp only [Db.sessions_tryAppendCommandEvents, Db.sessions_tryAppendScrollback,
        Db.lookup_tryUpsertSession] at h
      split_ifs at h with hid
      · rw [hid.2, show s.shared.getMeta.id = id from (KeyedTable.key_eq hs :)]
        exact .inl (by rw [tracked_of_lookup hs]; rfl)
      · exact .inr (.inl h)
    · exact .refl d
  · exact .refl d

theorem evolves_flushScrollbackOnce : Evolves d d.flushScrollbackOnce :=
  .foldl (fun _ id => evolves_sweepSession id) _ d

/-! ## Requests -/

theorem evolves_attachSession (connId : ℕ) (id : String) :
    Evolves d (d.attachSession connId id).1 := by
  unfold attachSession
  split
  · exact evolves_sessions (fun _ => rfl) rfl rfl rfl rfl
  · exact .refl d

/-- A session without a PTY is dropped from the live sessions. -/
theorem evolves_untrack (hs : ∀ w, d.tracked id ≠ some (w, true)) :
    Evolves d { d with liveSessions := d.liveSessions.filter (· != id) } where
  tracked _ := .inl rfl
  known _ h := h
  flushes f h := .inl h
  live id' h := fun ⟨w, hw⟩ => by
    refine List.mem_filter.2 ⟨h, ?_⟩
    rw [bne_iff_ne]
    rintro rfl
    exact hs w hw
  liveSub id' h := (List.mem_filter.1 h).1
  workspaces w h := h
  usedIds := rfl

theorem evolves_deleteSession (id : String) :
    Evolves d { d with db := d.db.deleteSession id } := by
  refine evolves_rows (fun _ => rfl) (fun id' h => ?_) (fun _ h => h) (fun _ h => h) rfl rfl
  rw [Db.lookup_deleteSession] at h
  split_ifs at h
  · cases h
  · exact .inr (.inl h)

theorem evolves_closeSession (id : String) (status : ExitStatus) :
    Evolves d (d.closeSession id status).1 := by
  unfold closeSession
  split
  · rename_i e h
    exact (kill_eq_some h).2.2
  · rename_i h
    split
    · split_ifs
      · exact .refl d
      · have hatt : Evolves d { d with attach := d.attach.filter (·.1 != id) } :=
          evolves_sessions (fun _ => rfl) rfl rfl rfl rfl
        have hrm := hatt.trans (evolves_removeInactive id)
        have hun := hrm.trans (evolves_untrack fun w hw => kill_eq_none h w (hrm.tracked_some hw))
        exact hun.trans (evolves_deleteSession id)
    · exact .refl d

/-- Closing a session leaves none with a PTY under its id. -/
theorem closeSession_tracked (status : ExitStatus) :
    (d.closeSession id status).1.tracked id ≠ some (w, true) := by
  intro hw
  have hev := evolves_closeSession (d := d) id status
  have hd := hev.tracked_some hw
  unfold closeSession at hw
  split at hw
  · rename_i e h
    rw [(kill_eq_some h).2.1] at hw
    cases hw
  · rename_i h
    exact kill_eq_none h w hd

theorem evolves_closeVictim (status : String → ExitStatus) (id : String) :
    Evolves d (d.closeVictim status id) :=
  (evolves_closeSession id (status id)).trans
    (evolves_untrack fun _ => closeSession_tracked (status id))

theorem evolves_deleteWorkspace {db : Db} (h : d.db.deleteWorkspace w = some db) :
    Evolves d { d with db := db } := by
  obtain ⟨hw, hs⟩ := Db.deleteWorkspace_eq_some h
  refine evolves_rows (fun _ => rfl) (fun id h => ?_) (fun w' hw' => ?_) (fun _ h => h) rfl rfl
  · rw [hs, KeyedTable.lookup_keep] at h
    refine .inr (.inl ?_)
    cases hl : d.db.sessions.lookup id with
    | none => simp [hl] at h
    | some r => rfl
  · rw [hw] at hw'
    exact (List.mem_filter.1 hw').1

theorem evolves_closing (ws : List String) : Evolves d { d with closingWorkspaces := ws } :=
  evolves_sessions (fun _ => rfl) rfl rfl rfl rfl

theorem evolves_removeWorkspace (w : String) (status : String → ExitStatus) :
    Evolves d (d.removeWorkspace w status).1 := by
  unfold removeWorkspace
  split
  · exact .refl d
  · rename_i ids hids
    set d1 : ServerDeps := { d with closingWorkspaces := d.closingWorkspaces.insert w }
    have h1 : Evolves d d1 := evolves_closing _
    set d2 := (ids ∪ d1.liveSessions.filter (d1.belongs w)).foldl
      (fun d id => d.closeVictim status id) d1
    have h2 : Evolves d1 d2 := .foldl (fun _ id => evolves_closeVictim status id) _ _
    have h3 := (h1.trans h2).trans evolves_awaitPendingFinalFlushes
    dsimp only
    split
    · exact h3.trans (evolves_closing _)
    · rename_i db hdb
      have h4 := h3.trans (evolves_deleteWorkspace hdb)
      have hstray (d : ServerDeps) (id : String) :
          Evolves d (if d.belongs w id then d.closeVictim status id else d) := by
        split_ifs
        · exact evolves_closeVictim status id
        · exact .refl d
      have h5 := h4.trans (.foldl hstray d2.awaitPendingFinalFlushes.liveSessions _)
      exact (h5.trans evolves_awaitPendingFinalFlushes).trans (evolves_closing _)

end ServerDeps

end BuilderPro
