import BuilderPro.Sessiond.DaemonSteps

/-!
# Runs of the daemon

A process that starts on the database tracks the sessions that have a row, without a PTY
(`restart_spec`).  Whatever its requests and tasks do after it, one after another, the ids it knows
were given out, and a session without a PTY is written by no final flush (`DaemonInv`).
-/

namespace BuilderPro

namespace ServerDeps

variable {d e : ServerDeps} {id : String}

/-! ## A new process -/

/-- No session has a PTY. -/
def Restored (d : ServerDeps) : Prop := ∀ id w, d.tracked id ≠ some (w, true)

theorem Restored.inactive (h : d.Restored) :
    (d.sessions.lookup id).any (·.shared.isActive) = false := by
  cases hl : d.sessions.lookup id with
  | none => rfl
  | some s =>
    have hp : s.pty = none := by
      cases hp : s.pty with
      | none => rfl
      | some p =>
        refine absurd ?_ (h id s.shared.workspaceId)
        rw [tracked_of_lookup hl, hp]
        rfl
    simp [s.inactive hp]

theorem tracked_rehydrateInactive (h : d.Restored) (m : SessionMeta) (scrollback : List UInt8) :
    (d.rehydrateInactive m scrollback).tracked id =
      if id = m.id then some (m.workspaceId, false) else d.tracked id := by
  unfold rehydrateInactive
  rw [h.inactive, if_neg Bool.false_ne_true]
  rw [tracked_upsert (d := d) rfl]
  rfl

/-- What a rehydration leaves alone. -/
theorem rehydrateInactive_rest (m : SessionMeta) (scrollback : List UInt8) :
    (d.rehydrateInactive m scrollback).db = d.db ∧
    (d.rehydrateInactive m scrollback).liveSessions = d.liveSessions ∧
    (d.rehydrateInactive m scrollback).finalFlushes = d.finalFlushes ∧
    (d.rehydrateInactive m scrollback).usedIds = d.usedIds := by
  unfold rehydrateInactive
  split_ifs <;> exact ⟨rfl, rfl, rfl, rfl⟩

theorem foldl_rehydrateInactive (ms : List SessionMeta) (f : SessionMeta → List UInt8)
    (h : d.Restored) (he : ms.foldl (fun d m => d.rehydrateInactive m (f m)) d = e) :
    e.Restored ∧ (∀ id, (e.tracked id).isSome ↔ (d.tracked id).isSome ∨ ∃ m ∈ ms, m.id = id) ∧
      e.db = d.db ∧ e.liveSessions = d.liveSessions ∧ e.finalFlushes = d.finalFlushes ∧
      e.usedIds = d.usedIds := by
  induction ms generalizing d with
  | nil =>
    obtain rfl : d = e := he
    simp [h]
  | cons m ms ih =>
    have hm : (d.rehydrateInactive m (f m)).Restored := by
      intro id w
      rw [tracked_rehydrateInactive h]
      split_ifs
      · simp
      · exact h id w
    obtain ⟨h1, h2, h3, h4, h5, h6⟩ := ih hm he
    obtain ⟨r1, r2, r3, r4⟩ := rehydrateInactive_rest (d := d) m (f m)
    refine ⟨h1, fun id => ?_, h3.trans r1, h4.trans r2, h5.trans r3, h6.trans r4⟩
    rw [h2, tracked_rehydrateInactive h]
    by_cases hid : id = m.id
    · simp [hid]
    · simp [hid, Ne.symm hid]

/-- A process that has started on the database tracks the sessions that have a row, without a
PTY. -/
theorem boot_coldRehydrate (db : Db) (usedIds : List String)
    (he : (boot db usedIds).coldRehydrate = e) :
    e.Restored ∧ (∀ id, (e.tracked id).isSome ↔ (db.sessions.lookup id).isSome) ∧ e.db = db ∧
      e.liveSessions = [] ∧ e.finalFlushes = [] ∧ e.usedIds = usedIds := by
  have h0 : (boot db usedIds).Restored := fun _ _ h => by cases h
  obtain ⟨h1, h2, h3⟩ := foldl_rehydrateInactive (boot db usedIds).db.listSessions
    (fun m => (boot db usedIds).db.loadScrollback m.id) h0 he
  refine ⟨h1, fun id => ?_, h3⟩
  rw [h2]
  simp only [show (boot db usedIds).tracked id = none from rfl, Option.isSome_none,
    Bool.false_eq_true, false_or]
  exact Db.mem_listSessions

theorem evolves_shutdownAll (status : String → ExitStatus) : Evolves d (d.shutdownAll status) := by
  refine .foldl (fun d id => ?_) _ d
  cases h : d.kill id (status id) with
  | none => exact .refl d
  | some e => exact (kill_eq_some h).2.2

/-- The process that ends writes rows of sessions it knows; the new one starts from the rows. -/
theorem restart_spec (stop : Stop) : (d.restart stop).Restored ∧
    (∀ id, ((d.restart stop).tracked id).isSome ↔
      ((d.restart stop).db.sessions.lookup id).isSome) ∧
    (∀ id, ((d.restart stop).db.sessions.lookup id).isSome → d.Known id) ∧
    (d.restart stop).liveSessions = [] ∧ (d.restart stop).finalFlushes = [] ∧
    (d.restart stop).usedIds = d.usedIds := by
  cases stop with
  | shutdown status =>
    set d' := (d.shutdownAll status).awaitPendingFinalFlushes
    have hd' : Evolves d d' :=
      (evolves_shutdownAll status).trans evolves_awaitPendingFinalFlushes
    obtain ⟨h1, h2, h3, h4, h5, h6⟩ := boot_coldRehydrate (e := d.restart (.shutdown status))
      d'.db d'.usedIds rfl
    rw [h3]
    exact ⟨h1, h2, fun id h => hd'.known id (.inr (.inl h)), h4, h5, h6.trans hd'.usedIds⟩
  | crash =>
    obtain ⟨h1, h2, h3, h4, h5, h6⟩ := boot_coldRehydrate (e := d.restart .crash) d.db d.usedIds rfl
    rw [h3]
    exact ⟨h1, h2, fun id h => .inr (.inl h), h4, h5, h6⟩

/-! ## Runs -/

/-- The ids the daemon knows were given out, no session without a PTY is to be written, and those
with one are tracked as live. -/
structure DaemonInv (d : ServerDeps) : Prop where
  used : ∀ id, d.Known id → id ∈ d.usedIds
  quiet : ∀ id w, d.tracked id = some (w, false) → ∀ f ∈ d.finalFlushes, f.sessionMeta.id ≠ id
  live : ∀ id ∈ d.liveSessions, id ∈ d.usedIds
  registered : ∀ id w, d.tracked id = some (w, true) → id ∈ d.liveSessions

theorem Evolves.inv (h : Evolves d e) (hd : DaemonInv d) : DaemonInv e where
  used id hk := h.usedIds ▸ hd.used id (h.known id hk)
  quiet id w hw f hf hid := by
    have ht := h.tracked_some hw
    rcases h.flushes f hf with hf | ⟨w', hw'⟩
    · exact hd.quiet id w ht f hf hid
    · rw [hid, ht] at hw'
      cases hw'
  live id hl := h.usedIds ▸ hd.live id (h.liveSub id hl)
  registered id w hw := h.live id (hd.registered id w (h.tracked_some hw)) ⟨w, hw⟩

theorem tracked_spawn (w : String) (spec : SessionSpec) (id' : String) (now : Int) :
    (d.spawn w spec id' now).tracked id = if id = id' then some (w, true) else d.tracked id := by
  rw [tracked_upsert (d := d) rfl]
  rfl

/-- The request is refused, or its session is tracked and written. -/
theorem createSession_cases (w : String) (spec : Except Response SessionSpec) (id : String)
    (now : Int) : (d.createSession w spec id now).1 = d ∨
    ∃ spec' m, m.id = id ∧ (d.createSession w spec id now).1 = { d.spawn w spec' id now with
      liveSessions := d.liveSessions.insert id
      db := d.db.tryUpsertSession m } := by
  unfold createSession
  split_ifs
  · exact .inl rfl
  · split
    · exact .inl rfl
    · rename_i spec'
      dsimp only
      split
      · rename_i m hm
        exact .inr ⟨spec', m, getMeta_id hm, rfl⟩
      · rename_i hm
        have : ((d.spawn w spec' id now).getMeta id).isSome = _ := getMeta_isSome
        rw [hm, tracked_spawn, if_pos rfl] at this
        cases this

theorem createSession_known {w : String} {spec : SessionSpec} {m : SessionMeta} {id' : String}
    {now : Int} (hm : m.id = id) (h : ServerDeps.Known { d.spawn w spec id now with
      liveSessions := d.liveSessions.insert id
      db := d.db.tryUpsertSession m } id') : d.Known id' ∨ id' = id := by
  rcases h with h | h | h
  · replace h : ((d.spawn w spec id now).tracked id').isSome := h
    rw [tracked_spawn] at h
    split_ifs at h with heq
    · exact .inr heq
    · exact .inl (.inl h)
  · rw [Db.lookup_tryUpsertSession] at h
    split_ifs at h with heq
    · exact .inr (heq.2.trans hm)
    · exact .inl (.inr (.inl h))
  · exact .inl (.inr (.inr h))

theorem createSession_inv (hd : DaemonInv d) (w : String) (spec : Except Response SessionSpec)
    (id : String) (now : Int) (hid : id ∉ d.usedIds) :
    DaemonInv (d.createSession w spec id now).1 := by
  rcases createSession_cases (d := d) w spec id now with h | ⟨spec', m, hm, h⟩ <;> rw [h]
  · exact hd
  · refine ⟨fun id' hk => ?_, fun id' w' hw => ?_, fun id' hl => ?_, fun id' w' hw => ?_⟩
    · rcases createSession_known hm hk with hk | rfl
      · exact List.mem_insert_of_mem (hd.used id' hk)
      · exact List.mem_insert_self
    · replace hw : (d.spawn w spec' id now).tracked id' = some (w', false) := hw
      rw [tracked_spawn] at hw
      split_ifs at hw with heq
      · cases hw
      · exact hd.quiet id' w' hw
    · rcases List.mem_insert_iff.1 hl with rfl | hl
      · exact List.mem_insert_self
      · exact List.mem_insert_of_mem (hd.live id' hl)
    · replace hw : (d.spawn w spec' id now).tracked id' = some (w', true) := hw
      rw [tracked_spawn] at hw
      split_ifs at hw with heq
      · exact heq ▸ List.mem_insert_self
      · exact List.mem_insert_of_mem (hd.registered id' w' hw)

theorem restart_inv (hd : DaemonInv d) (stop : Stop) : DaemonInv (d.restart stop) := by
  obtain ⟨h1, h2, h3, h4, h5, h6⟩ := restart_spec (d := d) stop
  refine ⟨fun id hk => ?_, fun id w _ f hf => ?_, fun id hl => ?_, fun id w hw => ?_⟩
  · rw [h6]
    rcases hk with hk | hk | ⟨f, hf, -⟩
    · exact hd.used id (h3 id ((h2 id).1 hk))
    · exact hd.used id (h3 id hk)
    · rw [h5] at hf
      cases hf
  · rw [h5] at hf
    cases hf
  · rw [h4] at hl
    cases hl
  · exact absurd hw (h1 id w)

theorem background_evolves {op : Op} (hb : op.background) (h : d.step op = some e) :
    Evolves d e := by
  cases op <;> cases hb <;> simp only [step, Option.some.injEq] at h
  case output id chunk now => exact h ▸ evolves_output id chunk now
  case eof id => exact h ▸ evolves_eof id
  case tick id g => exact h ▸ evolves_tick id g
  case childExits id status => exact h ▸ evolves_childExits id status
  case attachSession connId id => exact h ▸ evolves_attachSession connId id
  case killSession id status => exact h ▸ evolves_closeSession id status
  case flushScrollbackOnce => exact h ▸ evolves_flushScrollbackOnce
  case runFinalFlush i => exact h ▸ evolves_runFinalFlush i

/-- One operation keeps the invariant, and makes no id known that was given out before. -/
theorem step_inv {op : Op} (hd : DaemonInv d) (h : d.step op = some e) :
    DaemonInv e ∧ d.usedIds ⊆ e.usedIds ∧ ∀ id ∈ d.usedIds, e.Known id → d.Known id := by
  have hev (h : Evolves d e) :
      DaemonInv e ∧ d.usedIds ⊆ e.usedIds ∧ ∀ id ∈ d.usedIds, e.Known id → d.Known id :=
    ⟨h.inv hd, h.usedIds ▸ List.Subset.refl _, fun id _ => h.known id⟩
  cases op
  case createWorkspace w =>
    cases h
    exact ⟨⟨hd.used, hd.quiet, hd.live, hd.registered⟩, List.Subset.refl _, fun _ _ h => h⟩
  case createSession w spec id now =>
    simp only [step] at h
    split_ifs at h with hid
    cases h
    refine ⟨createSession_inv hd w spec id now hid, ?_⟩
    rcases createSession_cases (d := d) w spec id now with h | ⟨spec', m, hm, h⟩ <;> rw [h]
    · exact ⟨List.Subset.refl _, fun _ _ h => h⟩
    · refine ⟨fun _ h => List.mem_insert_of_mem h, fun id' hu hk => ?_⟩
      refine (createSession_known hm hk).resolve_right fun heq => hid ?_
      rwa [← heq]
  case removeWorkspace w status => exact hev (Option.some.inj h ▸ evolves_removeWorkspace w status)
  case restart stop =>
    cases h
    refine ⟨restart_inv hd stop, ?_⟩
    obtain ⟨-, h2, h3, -, h5, h6⟩ := restart_spec (d := d) stop
    refine ⟨h6 ▸ List.Subset.refl _, fun id _ => ?_⟩
    rintro (h | h | ⟨f, hf, -⟩)
    · exact h3 id ((h2 id).1 h)
    · exact h3 id h
    · rw [h5] at hf
      cases hf
  all_goals exact hev (background_evolves rfl h)

theorem daemonInv_init : DaemonInv init where
  used id h := by
    rcases h with h | h | ⟨f, hf, -⟩
    · cases h
    · cases h
    · cases hf
  quiet id w h := by cases h
  live id h := by cases h
  registered id w h := by cases h

theorem run_inv {ops : List Op} (hd : DaemonInv d) (h : run d ops = some e) : DaemonInv e :=
  Runs.run_keeps (I := DaemonInv) (fun _ _ _ hd hs => (step_inv hd hs).1) hd h

end ServerDeps

end BuilderPro
