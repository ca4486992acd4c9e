import BuilderPro.App.ListOrder

/-!
# The daemon's past and the store

What is read of the daemon's lists is what its changes up to then made of the first (`Recorded`).
What the daemon does not list, the store loses yet or does not show (`GoneTold`).  Once a hydrate is
in that was begun after the last change and the last reconnect, the events on their way lead from
the store's rows to the daemon's (`Leads`), and a row of the daemon's past that is put in in turn
does so too (`after_onEntry_of_inTurn`, `after_setWorkspace_of_inTurn`).
-/

namespace BuilderPro

namespace ListsState

variable (st : ListsState) (home : String → String)
variable (first : AppLists) (log : List ListChange)

/-- A session as it was when there were `k` changes. -/
def sessionAt (k : ℕ) (id : String) : Option SessionMeta :=
  Replica.after SessionChange.onRow
    ((log.take k).filterMap (ListChange.sessionChange? home id)) (first.sessions.lookup id)

def workspaceAt (k : ℕ) (id : String) : Option Workspace :=
  Replica.after setWorkspace ((log.take k).filterMap (ListChange.workspaceChange? id))
    (first.workspaces.lookup id)

/-- What was read of the daemon's lists. -/
structure SessionsRead (fresh : Bool) (t : ℕ × KeyedTable SessionMeta.id) : Prop where
  le : t.1 ≤ log.length
  now : fresh → t.1 = log.length
  homed : ∀ m ∈ t.2.rows, m.workspaceId = home m.id
  lookup : ∀ id, t.2.lookup id = sessionAt home first log t.1 id

structure WorkspacesRead (fresh : Bool) (t : ℕ × KeyedTable Workspace.id) : Prop where
  le : t.1 ≤ log.length
  now : fresh → t.1 = log.length
  lookup : ∀ id, t.2.lookup id = workspaceAt first log t.1 id

structure HydrateRead (h : Hydrate) : Prop where
  sessions : ∀ t ∈ h.sessions, SessionsRead home first log h.fresh t
  workspaces : ∀ t ∈ h.workspaces, WorkspacesRead first log h.fresh t

def WorkspaceReplied (r : ℕ × OwnReply) : Prop :=
  ∀ w, r.2 = .upsertWorkspace w → r.1 ≤ log.length ∧ some w = workspaceAt first log r.1 w.id

/-- The record is what has become of the daemon's lists, and what was read is a part of it. -/
structure Recorded : Prop where
  daemon : st.daemon.Homed home
  store : st.store.Homed home
  coming : ∀ m, .sessionCreated m ∈ st.pending → m.workspaceId = home m.id
  sessions : ∀ id, sessionAt home first st.log st.log.length id = st.daemon.sessions.lookup id
  workspaces : ∀ id, workspaceAt first st.log st.log.length id = st.daemon.workspaces.lookup id
  hydrates : ∀ h ∈ st.hydrates, HydrateRead home first st.log h
  replies : ∀ r ∈ st.replies, WorkspaceReplied first st.log r

/-- What the daemon does not list, the store loses yet or does not show. -/
structure GoneTold : Prop where
  sessions : ∀ id, Replica.Told (·.isCreated) (· = .removed) (st.comingSession home id)
    (st.SessionTakenOut home id) (st.daemon.sessions.lookup id) (st.store.sessions.lookup id)
  workspaces : ∀ id, Replica.Told (·.isSome) (· = none) (st.comingWorkspace id)
    (st.WorkspaceTakenOut id) (st.daemon.workspaces.lookup id) (st.store.workspaces.lookup id)

/-- Once the store has caught up, the events on their way lead to the rows that the daemon lists. -/
structure Leads : Prop where
  sessions : st.caughtUp → ∀ id m, st.daemon.sessions.lookup id = some m →
    Replica.after SessionChange.onEntry (st.comingSession home id)
      (st.store.sessions.lookup id) = some m
  workspaces : st.caughtUp → ∀ id w, st.daemon.workspaces.lookup id = some w →
    Replica.after setWorkspace (st.comingWorkspace id) (st.store.workspaces.lookup id) = some w

structure Inv : Prop where
  recorded : st.Recorded home first
  told : st.GoneTold home
  leads : st.Leads home

variable {st home first log} {st' : ListsState} {id : String}

theorem leads_of_outdated (h : st.caughtUp = false) : st.Leads home := by
  refine ⟨fun hc => ?_, fun hc => ?_⟩
  · rw [h] at hc
    cases hc
  · rw [h] at hc
    cases hc

theorem inv_init (hhomed : first.Homed home) : (init first).Inv home first where
  recorded :=
    { daemon := hhomed
      store := fun _ h => absurd h List.not_mem_nil
      coming := fun _ h => absurd h List.not_mem_nil
      sessions := fun _ => rfl
      workspaces := fun _ => rfl
      hydrates := fun _ h => absurd h List.not_mem_nil
      replies := fun _ h => absurd h List.not_mem_nil }
  told := ⟨fun _ _ h => by simp [init, comingSession, pending, KeyedTable.lookup,
    KeyedTable.empty] at h, fun _ _ h => by simp [init, comingWorkspace, pending,
    KeyedTable.lookup, KeyedTable.empty] at h⟩
  leads := leads_of_outdated rfl

/-! ### The record -/

section Record

variable {k : ℕ} {cs : List ListChange}

theorem sessionAt_append (hk : k ≤ log.length) :
    sessionAt home first (log ++ cs) k id = sessionAt home first log k id := by
  rw [sessionAt, sessionAt, List.take_append_of_le_length hk]

theorem workspaceAt_append (hk : k ≤ log.length) :
    workspaceAt first (log ++ cs) k id = workspaceAt first log k id := by
  rw [workspaceAt, workspaceAt, List.take_append_of_le_length hk]

/-- What has become of a session is what the later changes make of it. -/
theorem sessionAt_length (k : ℕ) : sessionAt home first log log.length id =
    Replica.after SessionChange.onRow
      ((log.drop k).filterMap (ListChange.sessionChange? home id))
      (sessionAt home first log k id) := by
  rw [sessionAt, sessionAt, ← Replica.after_append, ← List.filterMap_append,
    List.take_append_drop, List.take_length]

theorem workspaceAt_length (k : ℕ) : workspaceAt first log log.length id =
    Replica.after setWorkspace ((log.drop k).filterMap (ListChange.workspaceChange? id))
      (workspaceAt first log k id) := by
  rw [workspaceAt, workspaceAt, ← Replica.after_append, ← List.filterMap_append,
    List.take_append_drop, List.take_length]

/-- The lists of a hydrate stay read when there are more changes; it is not fresh any more. -/
theorem HydrateRead.outdate {h : Hydrate} (hr : HydrateRead home first log h) :
    HydrateRead home first (log ++ cs) { h with fresh := false } where
  sessions t ht :=
    have hread := hr.sessions t ht
    ⟨hread.le.trans (by simp), nofun, hread.homed,
      fun id => (hread.lookup id).trans (sessionAt_append hread.le).symm⟩
  workspaces t ht :=
    have hread := hr.workspaces t ht
    ⟨hread.le.trans (by simp), nofun,
      fun id => (hread.lookup id).trans (workspaceAt_append hread.le).symm⟩

theorem WorkspaceReplied.append {r : ℕ × OwnReply} (h : WorkspaceReplied first log r) :
    WorkspaceReplied first (log ++ cs) r := by
  intro w hw
  obtain ⟨hle, hat⟩ := h w hw
  exact ⟨hle.trans (by simp), hat.trans (workspaceAt_append hle).symm⟩

end Record

theorem pending_change (r : AppLists × List ListPush) :
    (st.change r).pending = st.pending ++ if st.connected then r.2 else [] := by
  rw [pending, pending, List.append_assoc]
  show _ ++ (if st.connected then st.wire ++ r.2 else st.wire) = _
  split_ifs
  · rfl
  · rw [List.append_nil]
    rfl

theorem Recorded.change (h : st.Recorded home first) {r : AppLists × List ListPush}
    (hd : r.1.Homed home) (hc : ∀ m, .sessionCreated m ∈ r.2 → m.workspaceId = home m.id)
    (hs : ∀ id, Replica.after SessionChange.onRow
      ((changes st.daemon r).filterMap (ListChange.sessionChange? home id))
      (st.daemon.sessions.lookup id) = r.1.sessions.lookup id)
    (hw : ∀ id, Replica.after setWorkspace
      ((changes st.daemon r).filterMap (ListChange.workspaceChange? id))
      (st.daemon.workspaces.lookup id) = r.1.workspaces.lookup id) :
    (st.change r).Recorded home first where
  daemon := hd
  store := h.store
  coming m hm := by
    rw [pending_change, List.mem_append] at hm
    rcases hm with hm | hm
    · exact h.coming m hm
    · split_ifs at hm
      · exact hc m hm
      · cases hm
  sessions id := by
    show sessionAt home first (st.log ++ changes st.daemon r)
      (st.log ++ changes st.daemon r).length id = r.1.sessions.lookup id
    rw [sessionAt_length st.log.length, sessionAt_append le_rfl, h.sessions, List.drop_left, hs]
  workspaces id := by
    show workspaceAt first (st.log ++ changes st.daemon r)
      (st.log ++ changes st.daemon r).length id = r.1.workspaces.lookup id
    rw [workspaceAt_length st.log.length, workspaceAt_append le_rfl, h.workspaces,
      List.drop_left, hw]
  hydrates x hx := by
    obtain ⟨y, hy, rfl⟩ := List.mem_map.1 hx
    exact (h.hydrates y hy).outdate
  replies x hx := (h.replies x hx).append

theorem serve_created {d : AppLists} {v : DaemonVerb} {r : AppLists × List ListPush}
    (hv : v.Homed home) (hr : d.serve v = some r) {m : SessionMeta}
    (hm : .sessionCreated m ∈ r.2) : m.workspaceId = home m.id := by
  cases v with
  | createSession m' =>
    obtain ⟨-, ⟨⟩⟩ := Option.ite_none_right_eq_some.1 hr
    cases List.mem_singleton.1 hm
    exact hv
  | setStatus s u =>
    obtain ⟨_, -, rfl⟩ := Option.map_eq_some_iff.1 hr
    cases List.mem_singleton.1 hm
  | exit s x =>
    obtain ⟨_, -, hr⟩ := Option.bind_eq_some_iff.1 hr
    obtain ⟨-, ⟨⟩⟩ := Option.ite_none_right_eq_some.1 hr
    cases List.mem_singleton.1 hm
  | kill s x =>
    obtain ⟨_, -, rfl⟩ := Option.map_eq_some_iff.1 hr
    split_ifs at hm
    · cases List.mem_singleton.1 hm
    · cases hm
  | createWorkspace w =>
    cases hr
    cases List.mem_singleton.1 hm
  | setRoots s rootPath roots =>
    obtain ⟨_, -, rfl⟩ := Option.map_eq_some_iff.1 hr
    cases List.mem_singleton.1 hm
  | removeWorkspace s x =>
    obtain ⟨_, -, rfl⟩ := Option.map_eq_some_iff.1 hr
    simp at hm

theorem Recorded.serve (h : st.Recorded home first) {v : DaemonVerb} (hv : v.Homed home)
    {r : AppLists × List ListPush} (hr : st.daemon.serve v = some r) :
    (st.change r).Recorded home first :=
  h.change (h.daemon.serve hv hr) (fun _ => serve_created hv hr)
    (fun _ => after_sessionChanges h.daemon hr) fun _ => after_workspaceChanges hr

theorem Recorded.restart (h : st.Recorded home first) {rows : AppLists} (hd : rows.Homed home) :
    (st.change (rows, [])).Recorded home first :=
  h.change hd (fun _ hm => absurd hm List.not_mem_nil) (fun _ => after_untold_sessions rfl)
    fun _ => after_untold_workspaces rfl

/-- The record and the daemon's lists stay as they are. -/
theorem Recorded.mono (h : st.Recorded home first) (hd : st'.daemon = st.daemon)
    (hlog : st'.log = st.log) (hstore : st'.store.Homed home)
    (hpending : ∀ p ∈ st'.pending, p ∈ st.pending)
    (hh : ∀ x ∈ st'.hydrates, HydrateRead home first st.log x)
    (hr : ∀ r ∈ st'.replies, WorkspaceReplied first st.log r) : st'.Recorded home first where
  daemon := hd ▸ h.daemon
  store := hstore
  coming m hm := h.coming m (hpending _ hm)
  sessions id := by
    rw [hlog, hd]
    exact h.sessions id
  workspaces id := by
    rw [hlog, hd]
    exact h.workspaces id
  hydrates := hlog ▸ hh
  replies := hlog ▸ hr

/-! ### What the daemon does not list -/

theorem mem_sessionIds (h : ∃ c ∈ st.comingSession home id, c.isCreated) :
    id ∈ st.pending.flatMap ListPush.sessionIds := by
  obtain ⟨c, hc, hcreated⟩ := h
  obtain ⟨p, hp, hpc⟩ := List.mem_filterMap.1 hc
  refine List.mem_flatMap.2 ⟨p, hp, ?_⟩
  rcases p with m | ⟨s, u⟩ | ⟨s, x⟩ | w | w | w
  · exact List.mem_singleton.2 (Option.ite_none_right_eq_some.1 hpc).1.symm
  · obtain ⟨-, ⟨⟩⟩ := Option.ite_none_right_eq_some.1 hpc
    cases hcreated
  · obtain ⟨-, ⟨⟩⟩ := Option.ite_none_right_eq_some.1 hpc
    cases hcreated
  · cases hpc
  · cases hpc
  · obtain ⟨-, ⟨⟩⟩ := Option.ite_none_right_eq_some.1 hpc
    cases hcreated

theorem mem_workspaceIds (h : ∃ c ∈ st.comingWorkspace id, c.isSome) :
    id ∈ st.pending.flatMap ListPush.workspaceIds := by
  obtain ⟨c, hc, hsome⟩ := h
  obtain ⟨p, hp, hpc⟩ := List.mem_filterMap.1 hc
  refine List.mem_flatMap.2 ⟨p, hp, ?_⟩
  rcases p with m | ⟨s, u⟩ | ⟨s, x⟩ | w | w | w
  · cases hpc
  · cases hpc
  · cases hpc
  · exact List.mem_singleton.2 (Option.ite_none_right_eq_some.1 hpc).1.symm
  · exact List.mem_singleton.2 (Option.ite_none_right_eq_some.1 hpc).1.symm
  · obtain ⟨-, ⟨⟩⟩ := Option.ite_none_right_eq_some.1 hpc
    cases hsome

/-- A row that the store shows or is about to is a known one. -/
theorem mem_knownSessions (h : (st.store.sessions.lookup id).isSome ∨
    ∃ c ∈ st.comingSession home id, c.isCreated) : id ∈ st.knownSessions := by
  refine List.mem_append.2 (h.imp (fun hs => ?_) mem_sessionIds)
  exact List.mem_map.2 (KeyedTable.exists_row.2 hs)

theorem mem_knownWorkspaces (h : (st.store.workspaces.lookup id).isSome ∨
    ∃ c ∈ st.comingWorkspace id, c.isSome) : id ∈ st.knownWorkspaces := by
  refine List.mem_append.2 (h.imp (fun hs => ?_) mem_workspaceIds)
  exact List.mem_map.2 (KeyedTable.exists_row.2 hs)

theorem SessionLeaves.told (h : st.SessionLeaves home id) :
    (∃ c ∈ (st.comingSession home id).getLast?, c = .removed) ∨ st.SessionTakenOut home id :=
  h.imp_left fun h => ⟨_, h, rfl⟩

theorem WorkspaceLeaves.told (h : st.WorkspaceLeaves id) :
    (∃ c ∈ (st.comingWorkspace id).getLast?, c = none) ∨ st.WorkspaceTakenOut id :=
  h.imp_left fun h => ⟨_, h, rfl⟩

/-- Of a workspace, the last that is said counts. -/
theorem after_setWorkspace {cs : List (Option Workspace)} {v : Option Workspace} :
    Replica.after setWorkspace cs v = cs.getLast?.getD v := by
  rcases List.eq_nil_or_concat cs with rfl | ⟨bs, c, rfl⟩
  · rfl
  · rw [List.concat_eq_append, Replica.after_concat, List.getLast?_concat]
    rfl

theorem GoneTold.mono (h : st.GoneTold home) (hd : st'.daemon = st.daemon)
    (hs : st'.store = st.store) (hp : st'.pending = st.pending)
    (hr : ∀ r ∈ st.replies, r ∈ st'.replies) : st'.GoneTold home where
  sessions id := by
    rw [comingSession, hd, hs, hp]
    refine fun hnow hknown => (h.sessions id hnow hknown).imp_right ?_
    exact fun ⟨r, hmem, ht⟩ => ⟨r, hr r hmem, ht⟩
  workspaces id := by
    rw [comingWorkspace, hd, hs, hp]
    refine fun hnow hknown => (h.workspaces id hnow hknown).imp_right ?_
    exact fun ⟨r, hmem, ht⟩ => ⟨r, hr r hmem, ht⟩

/-- The daemon's lists change.  What is not told of, the store does not show, or it loses it. -/
theorem GoneTold.change (h : st.GoneTold home) {r : AppLists × List ListPush}
    (hd : st'.daemon = r.1) (hs : st'.store = st.store)
    (hp : st'.pending = st.pending ++ if st.connected then r.2 else [])
    (hr : ∀ x ∈ st.replies, x ∈ st'.replies)
    (htells : r.2 ≠ [] → ∀ id, Tells (r.2.filterMap (ListPush.sessionChange? home id))
      (st.daemon.sessions.lookup id) (r.1.sessions.lookup id))
    (hsets : r.2 ≠ [] → ∀ id, Replica.after setWorkspace
      (r.2.filterMap (ListPush.workspaceChange? id)) (st.daemon.workspaces.lookup id) =
        r.1.workspaces.lookup id)
    (hmiss : ¬(st.connected ∧ r.2 ≠ []) → (∀ id ∈ st.knownSessions,
      (st.daemon.sessions.lookup id).isSome → r.1.sessions.lookup id = none →
        (st.comingSession home id).getLast? = some .removed ∨ st'.SessionTakenOut home id) ∧
      ∀ id ∈ st.knownWorkspaces, (st.daemon.workspaces.lookup id).isSome →
        r.1.workspaces.lookup id = none →
          (st.comingWorkspace id).getLast? = some none ∨ st'.WorkspaceTakenOut id) :
    st'.GoneTold home := by
  have hout (id : String) : st.SessionTakenOut home id → st'.SessionTakenOut home id :=
    fun ⟨x, hx, ht⟩ => ⟨x, hr x hx, ht⟩
  have houtW (id : String) : st.WorkspaceTakenOut id → st'.WorkspaceTakenOut id :=
    fun ⟨x, hx, ht⟩ => ⟨x, hr x hx, ht⟩
  by_cases hsent : st.connected ∧ r.2 ≠ []
  · rw [if_pos hsent.1] at hp
    refine ⟨fun id => ?_, fun id => ?_⟩
    · rw [comingSession, hd, hs, hp, List.filterMap_append]
      refine (h.sessions id).push (hout id) fun hgone => ?_
      have htold := htells hsent.2 id
      rw [hgone] at htold
      exact htold.gone.imp (fun hlast => ⟨_, hlast, rfl⟩) .inl
    · rw [comingWorkspace, hd, hs, hp, List.filterMap_append]
      refine (h.workspaces id).push (houtW id) fun hgone => ?_
      have hset := hsets hsent.2 id
      rw [hgone, after_setWorkspace] at hset
      rcases hlast : (r.2.filterMap (ListPush.workspaceChange? id)).getLast? with _ | c
      · rw [hlast] at hset
        exact .inr (.inl ⟨List.getLast?_eq_none_iff.1 hlast, hset⟩)
      · rw [hlast] at hset
        exact .inl ⟨c, rfl, hset⟩
  · obtain ⟨hsessions, hworkspaces⟩ := hmiss hsent
    have hnone : (if st.connected then r.2 else []) = [] := by
      split_ifs with hc
      · exact of_not_not fun hne => hsent ⟨hc, hne⟩
      · rfl
    rw [hnone, List.append_nil] at hp
    refine ⟨fun id => ?_, fun id => ?_⟩
    · rw [comingSession, hd, hs, hp]
      refine Replica.Told.missed (st.daemon.sessions.lookup id)
        (fun hn hk => (h.sessions id hn hk).imp_right (hout id)) fun hgone hsome hknown => ?_
      exact (hsessions id (mem_knownSessions hknown) hsome hgone).imp_left fun hl => ⟨_, hl, rfl⟩
    · rw [comingWorkspace, hd, hs, hp]
      refine Replica.Told.missed (st.daemon.workspaces.lookup id)
        (fun hn hk => (h.workspaces id hn hk).imp_right (houtW id)) fun hgone hsome hknown => ?_
      exact (hworkspaces id (mem_knownWorkspaces hknown) hsome hgone).imp_left
        fun hl => ⟨_, hl, rfl⟩

/-- The user's own command takes out of the store what it makes the daemon drop. -/
theorem takesOutSession_done {d : AppLists} (h : d.Homed home) {c : OwnCall}
    {r : AppLists × List ListPush} (hr : d.serve c.verb = some r)
    (hsome : (d.sessions.lookup id).isSome) (hgone : r.1.sessions.lookup id = none) :
    (c.done r.1).takesOutSession home id := by
  have hupsert {m : SessionMeta} (hm : (d.upsertSession m).sessions.lookup id = none) : False := by
    have hm : (d.sessions.upsert m).lookup id = none := hm
    rw [KeyedTable.lookup_upsert] at hm
    split_ifs at hm
    rw [hm] at hsome
    cases hsome
  have hkept (hsame : r.1.sessions = d.sessions) : False := by
    rw [← hsame, hgone] at hsome
    cases hsome
  cases c with
  | createSession m =>
    obtain ⟨-, ⟨⟩⟩ := Option.ite_none_right_eq_some.1 hr
    exact (hupsert hgone).elim
  | killSession s x =>
    obtain ⟨m, -, rfl⟩ := Option.map_eq_some_iff.1 hr
    split_ifs at hgone ⊢
    · exact (hupsert hgone).elim
    · have hm : (d.sessions.erase s).lookup id = none := hgone
      rw [KeyedTable.lookup_erase] at hm
      split_ifs at hm with hid
      · exact decide_eq_true hid.symm
      · rw [hm] at hsome
        cases hsome
  | createWorkspace w upserts =>
    cases hr
    exact (hkept rfl).elim
  | setRoots s rootPath roots upserts =>
    obtain ⟨w, -, rfl⟩ := Option.map_eq_some_iff.1 hr
    exact (hkept rfl).elim
  | removeWorkspace w x =>
    obtain ⟨_, -, rfl⟩ := Option.map_eq_some_iff.1 hr
    have hm : (d.dropWorkspace w).sessions.lookup id = none := hgone
    rw [AppLists.sessions_dropWorkspace h] at hm
    split_ifs at hm with hw
    · exact decide_eq_true hw
    · rw [hm] at hsome
      cases hsome

theorem takesOutWorkspace_done {d : AppLists} {c : OwnCall} {r : AppLists × List ListPush}
    (hr : d.serve c.verb = some r) (hsome : (d.workspaces.lookup id).isSome)
    (hgone : r.1.workspaces.lookup id = none) : (c.done r.1).takesOutWorkspace id := by
  have hupsert {w : Workspace} (hw : (d.workspaces.upsert w).lookup id = none) : False := by
    rw [KeyedTable.lookup_upsert] at hw
    split_ifs at hw
    rw [hw] at hsome
    cases hsome
  have hkept (hsame : r.1.workspaces = d.workspaces) : False := by
    rw [← hsame, hgone] at hsome
    cases hsome
  cases c with
  | createSession m =>
    obtain ⟨-, ⟨⟩⟩ := Option.ite_none_right_eq_some.1 hr
    exact (hkept rfl).elim
  | killSession s x =>
    obtain ⟨m, -, rfl⟩ := Option.map_eq_some_iff.1 hr
    split_ifs at hkept
    · exact (hkept rfl).elim
    · exact (hkept rfl).elim
  | createWorkspace w upserts =>
    cases hr
    exact (hupsert hgone).elim
  | setRoots s rootPath roots upserts =>
    obtain ⟨w, -, rfl⟩ := Option.map_eq_some_iff.1 hr
    exact (hupsert hgone).elim
  | removeWorkspace w x =>
    obtain ⟨_, -, rfl⟩ := Option.map_eq_some_iff.1 hr
    have hm : (d.workspaces.erase w).lookup id = none := hgone
    rw [KeyedTable.lookup_erase] at hm
    split_ifs at hm with hid
    · exact decide_eq_true hid.symm
    · rw [hm] at hsome
      cases hsome

/-- What a command puts in the store is what the daemon has after it. -/
theorem workspace_done {d : AppLists} {c : OwnCall} {r : AppLists × List ListPush}
    (hr : d.serve c.verb = some r) {w : Workspace} (hw : c.done r.1 = .upsertWorkspace w) :
    r.1.workspaces.lookup w.id = some w := by
  cases c with
  | createSession m => cases hw
  | killSession s x => cases hw
  | createWorkspace w' upserts =>
    cases hr
    cases upserts
    · cases hw
    · cases hw
      exact KeyedTable.lookup_upsert.trans (if_pos rfl)
  | setRoots s rootPath roots upserts =>
    cases upserts
    · cases hw
    · have hw : ((r.1.workspaces.lookup s).map OwnReply.upsertWorkspace).getD .nothing =
          .upsertWorkspace w := hw
      rcases hv : r.1.workspaces.lookup s with _ | v
      · rw [hv] at hw
        cases hw
      · rw [hv] at hw
        cases hw
        rw [KeyedTable.key_eq hv]
        exact hv
  | removeWorkspace s x => cases hw

/-! ### The rows that are put in the store -/

/-- A row of the daemon's past leads to the row that the daemon has by now. -/
theorem after_onEntry_of_inTurn {matters : Prop} {k : ℕ} {w m : SessionMeta}
    (hr : st.Recorded home first) (hw : some w = sessionAt home first st.log k w.id)
    (hm : st.daemon.sessions.lookup w.id = some m) (ht : st.SessionInTurn home matters k w)
    (hmatters : matters) :
    Replica.after SessionChange.onEntry (st.comingSession home w.id) (some w) = some m := by
  obtain ⟨⟨older, hcoming⟩, ⟨before, hlog⟩, horder⟩ := ht.2 m hm hmatters
  rw [← hcoming] at hlog horder ⊢
  have hsplit : st.sessionsSince home 0 w.id =
      (st.log.take k).filterMap (ListChange.sessionChange? home w.id) ++
        st.sessionsSince home k w.id := by
    rw [sessionsSince, sessionsSince, ← List.filterMap_append, List.take_append_drop,
      List.drop_zero]
  rw [hsplit, ← List.append_assoc] at hlog
  have hat := List.append_cancel_right hlog
  refine SessionChange.after_onEntry_eq
    (Replica.after SessionChange.onRow before (first.sessions.lookup w.id)) ?_ ?_ horder
  · rw [← Replica.after_append, hat]
    exact hw.symm
  · rw [hw, ← hm, ← hr.sessions, sessionAt_length k]
    rfl

/-- Once something is said of a workspace on its way, it does not matter what is shown. -/
theorem after_setWorkspace_congr {cs : List (Option Workspace)} (h : cs ≠ [])
    (v w : Option Workspace) :
    Replica.after setWorkspace cs v = Replica.after setWorkspace cs w := by
  obtain ⟨c, hc⟩ := List.exists_mem_of_ne_nil cs h
  exact Replica.after_eq_after hc (fun _ _ => rfl) v w

/-- The same of a workspace: the store had caught up already, or it does so by this row. -/
theorem after_setWorkspace_of_inTurn {fresh : Prop} {k : ℕ} {w w' : Workspace}
    (hr : st.Recorded home first) (hl : st.Leads home)
    (hw : some w = workspaceAt first st.log k w.id)
    (hm : st.daemon.workspaces.lookup w.id = some w')
    (hturn : if st.caughtUp then st.comingWorkspace w.id = [] → st.workspacesSince k w.id = []
      else fresh → st.comingWorkspace w.id <:+ st.workspacesSince 0 w.id)
    (hfresh : fresh → k = st.log.length) (hcaught : st.caughtUp ∨ fresh) :
    Replica.after setWorkspace (st.comingWorkspace w.id) (some w) = some w' := by
  have hnow : Replica.after setWorkspace (st.workspacesSince k w.id) (some w) = some w' := by
    rw [hw, ← hm, ← hr.workspaces, workspaceAt_length k]
    rfl
  split_ifs at hturn with hc
  · by_cases hnil : st.comingWorkspace w.id = []
    · rw [hturn hnil] at hnow
      rw [hnil]
      exact hnow
    · rw [after_setWorkspace_congr hnil _ (st.store.workspaces.lookup w.id)]
      exact hl.workspaces hc w.id w' hm
  · have hf : fresh := hcaught.resolve_left hc
    obtain ⟨before, hlog⟩ := hturn hf
    by_cases hnil : st.comingWorkspace w.id = []
    · have hsince : st.workspacesSince k w.id = [] := by
        rw [workspacesSince, hfresh hf, List.drop_length]
        rfl
      rw [hsince] at hnow
      rw [hnil]
      exact hnow
    · have hall : some w' = workspaceAt first st.log st.log.length w.id :=
        (hr.workspaces w.id).trans hm |>.symm
      rw [workspaceAt_length 0] at hall
      have hzero : (st.log.drop 0).filterMap (ListChange.workspaceChange? w.id) =
          before ++ st.comingWorkspace w.id := hlog.symm
      rw [hzero, Replica.after_append] at hall
      rw [hall]
      exact after_setWorkspace_congr hnil _ _

end ListsState

end BuilderPro
