import BuilderPro.App.SessionChanges

/-!
# What the daemon's changes and its pushes say of one row

A session belongs to one workspace for good, `home` of its id, so the removal of a workspace is the
removal of each of its sessions.  A row of the daemon is what its changes made of the first
(`after_sessionChanges`, `after_workspaceChanges`), and the store's entry is what the events make of
it; the pushes of a verb say of a session what becomes of it (`serve_tells`).
-/

namespace BuilderPro

/-- What a push says of a session. -/
def ListPush.sessionChange? (home : String → String) (id : String) :
    ListPush → Option SessionChange
  | .sessionCreated m => if m.id = id then some (.created m) else none
  | .stateChanged s u => if s = id then some (.status u) else none
  | .childExited s x => if s = id then some (.exited x) else none
  | .workspaceRemoved w => if w = home id then some .removed else none
  | .workspaceCreated _ | .workspaceUpdated _ => none

/-- What a push says of a workspace: all of it, or that there is none. -/
def ListPush.workspaceChange? (id : String) : ListPush → Option (Option Workspace)
  | .workspaceCreated w | .workspaceUpdated w => if w.id = id then some (some w) else none
  | .workspaceRemoved w => if w = id then some none else none
  | .sessionCreated _ | .stateChanged _ _ | .childExited _ _ => none

def ListChange.sessionChange? (home : String → String) (id : String) :
    ListChange → Option SessionChange
  | .push p => p.sessionChange? home id
  | .untold d d' => if d'.sessions.lookup id = d.sessions.lookup id then none
    else some ((d'.sessions.lookup id).elim .removed .created)

def ListChange.workspaceChange? (id : String) : ListChange → Option (Option Workspace)
  | .push p => p.workspaceChange? id
  | .untold d d' => if d'.workspaces.lookup id = d.workspaces.lookup id then none
    else some (d'.workspaces.lookup id)

/-- A workspace is what its last change says. -/
def setWorkspace (change : Option Workspace) (_ : Option Workspace) : Option Workspace := change

/-- Each session is in the workspace that is its own for good. -/
def AppLists.Homed (home : String → String) (l : AppLists) : Prop :=
  ∀ m ∈ l.sessions.rows, m.workspaceId = home m.id

def DaemonVerb.Homed (home : String → String) : DaemonVerb → Prop
  | .createSession m => m.workspaceId = home m.id
  | _ => True

instance (home : String → String) (l : AppLists) : Decidable (l.Homed home) :=
  inferInstanceAs (Decidable (∀ m ∈ l.sessions.rows, _))

instance (home : String → String) : (v : DaemonVerb) → Decidable (v.Homed home)
  | .createSession _ => inferInstanceAs (Decidable (_ = _))
  | .setStatus _ _ | .exit _ _ | .kill _ _ | .createWorkspace _ | .setRoots _ _ _
  | .removeWorkspace _ _ => isTrue trivial

variable {home : String → String} {id : String} {l d : AppLists}

/-! ### The store's entries -/

namespace AppLists

theorem Homed.lookup (h : l.Homed home) {m : SessionMeta} (hm : l.sessions.lookup id = some m) :
    m.workspaceId = home id := by
  obtain ⟨hmem, rfl⟩ := KeyedTable.lookup_eq_some.1 hm
  exact h m hmem

theorem Homed.upsertSession (h : l.Homed home) {m : SessionMeta}
    (hm : m.workspaceId = home m.id) : (l.upsertSession m).Homed home :=
  KeyedTable.forall_upsert h hm

theorem Homed.removeSession (h : l.Homed home) : (l.removeSession id).Homed home :=
  fun m hm => h m (List.mem_of_mem_filter hm)

theorem Homed.modify (h : l.Homed home) {f : SessionMeta → SessionMeta}
    (hf : ∀ m, (f m).id = m.id ∧ (f m).workspaceId = m.workspaceId) :
    ∀ m ∈ (l.sessions.modify id f).rows, m.workspaceId = home m.id := by
  rw [KeyedTable.modify]
  split
  · rename_i m hm
    refine KeyedTable.forall_upsert h ?_
    rw [(hf m).1, (hf m).2]
    exact h m (KeyedTable.lookup_eq_some.1 hm).1
  · exact h

theorem Homed.dropWorkspace (h : l.Homed home) : (l.dropWorkspace id).Homed home :=
  fun m hm => h m (List.mem_of_mem_filter hm)

theorem setLifecycle_key (m : SessionMeta) (u : StatusUpdate) :
    (m.setLifecycle u).id = m.id ∧ (m.setLifecycle u).workspaceId = m.workspaceId := by
  rw [SessionMeta.setLifecycle]
  split_ifs
  · exact ⟨rfl, rfl⟩
  · exact ⟨rfl, rfl⟩

theorem sessions_dropWorkspace (h : l.Homed home) (w : String) :
    (l.dropWorkspace w).sessions.lookup id =
      if w = home id then none else l.sessions.lookup id := by
  show (l.sessions.keep _).lookup id = _
  rw [KeyedTable.lookup_keep]
  rcases hm : l.sessions.lookup id with _ | m
  · exact (ite_self _).symm
  · by_cases hw : w = home id
    · rw [if_pos hw, Option.filter_some, if_neg (by simp [hw, h.lookup hm])]
    · rw [if_neg hw, Option.filter_some, if_pos (by simpa [h.lookup hm] using Ne.symm hw)]

/-- A session's entry after an event. -/
theorem sessions_onPush (h : l.Homed home) (p : ListPush) (id : String) :
    (l.onPush p).sessions.lookup id =
      Replica.after SessionChange.onEntry (p.sessionChange? home id).toList
        (l.sessions.lookup id) := by
  rcases p with m | ⟨s, u⟩ | ⟨s, x⟩ | w | w | w
  · show (l.sessions.upsert m).lookup id = _
    rw [KeyedTable.lookup_upsert, ListPush.sessionChange?]
    by_cases hid : m.id = id
    · rw [if_pos hid.symm, if_pos hid]
      rfl
    · rw [if_neg (Ne.symm hid), if_neg hid]
      rfl
  · show (l.sessions.modify s _).lookup id = _
    rw [KeyedTable.lookup_modify fun m => (setLifecycle_key m u).1, ListPush.sessionChange?]
    by_cases hid : s = id
    · rw [if_pos hid.symm, if_pos hid]
      rfl
    · rw [if_neg (Ne.symm hid), if_neg hid]
      rfl
  · have hkey (m : SessionMeta) : (m.markExited x).id = m.id := rfl
    show (l.sessions.modify s _).lookup id = _
    rw [KeyedTable.lookup_modify hkey, ListPush.sessionChange?]
    by_cases hid : s = id
    · rw [if_pos hid.symm, if_pos hid]
      rfl
    · rw [if_neg (Ne.symm hid), if_neg hid]
      rfl
  · rfl
  · rfl
  · refine (sessions_dropWorkspace h w).trans ?_
    rw [ListPush.sessionChange?]
    by_cases hw : w = home id
    · rw [if_pos hw, if_pos hw]
      rfl
    · rw [if_neg hw, if_neg hw]
      rfl

/-- A workspace's entry after an event. -/
theorem workspaces_onPush (l : AppLists) (p : ListPush) (id : String) :
    (l.onPush p).workspaces.lookup id =
      Replica.after setWorkspace (p.workspaceChange? id).toList (l.workspaces.lookup id) := by
  have hupsert (w : Workspace) : (l.workspaces.upsert w).lookup id = Replica.after setWorkspace
      (if w.id = id then some (some w) else none : Option (Option Workspace)).toList
      (l.workspaces.lookup id) := by
    rw [KeyedTable.lookup_upsert]
    by_cases hid : w.id = id
    · rw [if_pos hid.symm, if_pos hid]
      rfl
    · rw [if_neg (Ne.symm hid), if_neg hid]
      rfl
  rcases p with m | ⟨s, u⟩ | ⟨s, x⟩ | w | w | w
  · rfl
  · rfl
  · rfl
  · exact hupsert w
  · exact hupsert w
  · show (l.workspaces.erase w).lookup id = _
    rw [KeyedTable.lookup_erase, ListPush.workspaceChange?]
    by_cases hid : w = id
    · rw [if_pos hid.symm, if_pos hid]
      rfl
    · rw [if_neg (Ne.symm hid), if_neg hid]
      rfl

theorem Homed.onPush (h : l.Homed home) {p : ListPush}
    (hp : ∀ m, p = .sessionCreated m → m.workspaceId = home m.id) : (l.onPush p).Homed home := by
  rcases p with m | ⟨s, u⟩ | ⟨s, x⟩ | w | w | w
  · exact h.upsertSession (hp m rfl)
  · exact h.modify fun m => setLifecycle_key m u
  · exact h.modify fun _ => ⟨rfl, rfl⟩
  · exact h
  · exact h
  · exact h.dropWorkspace

theorem sessions_foldl_upsertWorkspace (ws : List Workspace) :
    (ws.foldl upsertWorkspace l).sessions = l.sessions := by
  induction ws generalizing l with
  | nil => rfl
  | cons w ws ih => exact ih

theorem sessions_foldl_upsertSession (ms : List SessionMeta) :
    (ms.foldl AppLists.upsertSession l).sessions = ms.foldl KeyedTable.upsert l.sessions := by
  induction ms generalizing l with
  | nil => rfl
  | cons m ms ih => exact ih

theorem workspaces_foldl_upsertSession (ms : List SessionMeta) :
    (ms.foldl AppLists.upsertSession l).workspaces = l.workspaces := by
  induction ms generalizing l with
  | nil => rfl
  | cons m ms ih => exact ih

theorem workspaces_foldl_upsertWorkspace (ws : List Workspace) :
    (ws.foldl upsertWorkspace l).workspaces = ws.foldl KeyedTable.upsert l.workspaces := by
  induction ws generalizing l with
  | nil => rfl
  | cons w ws ih => exact ih

/-- A hydrate puts its rows over the store's. -/
theorem sessions_hydrate (ws : KeyedTable Workspace.id) (ss : KeyedTable SessionMeta.id) :
    (l.hydrate ws ss).sessions.lookup id = (ss.lookup id).or (l.sessions.lookup id) := by
  rw [hydrate, sessions_foldl_upsertSession, sessions_foldl_upsertWorkspace,
    KeyedTable.lookup_foldl_upsert]

theorem workspaces_hydrate (ws : KeyedTable Workspace.id) (ss : KeyedTable SessionMeta.id) :
    (l.hydrate ws ss).workspaces.lookup id = (ws.lookup id).or (l.workspaces.lookup id) := by
  rw [hydrate, workspaces_foldl_upsertSession, workspaces_foldl_upsertWorkspace,
    KeyedTable.lookup_foldl_upsert]

theorem Homed.hydrate (h : l.Homed home) {ws : KeyedTable Workspace.id}
    {ss : KeyedTable SessionMeta.id} (hss : ∀ m ∈ ss.rows, m.workspaceId = home m.id) :
    (l.hydrate ws ss).Homed home := by
  intro m hm
  rw [KeyedTable.mem_rows, sessions_hydrate, Option.or_eq_some_iff] at hm
  rcases hm with hm | ⟨-, hm⟩
  · exact hss m (KeyedTable.mem_rows.2 hm)
  · exact h m (KeyedTable.mem_rows.2 hm)

theorem Homed.onReply (h : l.Homed home) (r : OwnReply) : (l.onReply r).Homed home := by
  rcases r with w | gone | gone | _
  · exact h
  · exact h.removeSession
  · exact h.dropWorkspace
  · exact h

/-- The daemon's sessions stay where they are. -/
theorem Homed.serve (h : d.Homed home) {v : DaemonVerb} (hv : v.Homed home)
    {r : AppLists × List ListPush} (hr : d.serve v = some r) : r.1.Homed home := by
  cases v with
  | createSession m =>
    obtain ⟨-, ⟨⟩⟩ := Option.ite_none_right_eq_some.1 hr
    exact h.upsertSession hv
  | setStatus s u =>
    obtain ⟨m, hm, rfl⟩ := Option.map_eq_some_iff.1 hr
    exact h.upsertSession (h m (KeyedTable.lookup_eq_some.1 hm).1)
  | exit s x =>
    obtain ⟨m, hm, hr⟩ := Option.bind_eq_some_iff.1 hr
    obtain ⟨-, ⟨⟩⟩ := Option.ite_none_right_eq_some.1 hr
    exact h.upsertSession (h m (KeyedTable.lookup_eq_some.1 hm).1)
  | kill s x =>
    obtain ⟨m, hm, rfl⟩ := Option.map_eq_some_iff.1 hr
    split_ifs
    · exact h.upsertSession (h m (KeyedTable.lookup_eq_some.1 hm).1)
    · exact h.removeSession
  | createWorkspace w =>
    cases hr
    exact h
  | setRoots s rootPath roots =>
    obtain ⟨w, -, rfl⟩ := Option.map_eq_some_iff.1 hr
    exact h
  | removeWorkspace s x =>
    obtain ⟨w, -, rfl⟩ := Option.map_eq_some_iff.1 hr
    exact h.dropWorkspace

end AppLists

/-! ### The daemon's rows -/

namespace ListsState

variable {r : AppLists × List ListPush}

theorem sessionChanges_of_pushes (h : r.2 ≠ []) :
    (changes d r).filterMap (ListChange.sessionChange? home id) =
      r.2.filterMap (ListPush.sessionChange? home id) := by
  rw [changes, if_neg h, List.filterMap_map]
  rfl

theorem workspaceChanges_of_pushes (h : r.2 ≠ []) :
    (changes d r).filterMap (ListChange.workspaceChange? id) =
      r.2.filterMap (ListPush.workspaceChange? id) := by
  rw [changes, if_neg h, List.filterMap_map]
  rfl

/-- A change without a push is recorded as what it is. -/
theorem after_untold_sessions (h : r.2 = []) :
    Replica.after SessionChange.onRow ((changes d r).filterMap (ListChange.sessionChange? home id))
      (d.sessions.lookup id) = r.1.sessions.lookup id := by
  rw [changes, if_pos h, List.filterMap_cons, ListChange.sessionChange?]
  by_cases hsame : r.1.sessions.lookup id = d.sessions.lookup id
  · rw [if_pos hsame, hsame]
    rfl
  · rw [if_neg hsame]
    rcases r.1.sessions.lookup id with _ | m <;> rfl

theorem after_untold_workspaces (h : r.2 = []) :
    Replica.after setWorkspace ((changes d r).filterMap (ListChange.workspaceChange? id))
      (d.workspaces.lookup id) = r.1.workspaces.lookup id := by
  rw [changes, if_pos h, List.filterMap_cons, ListChange.workspaceChange?]
  by_cases hsame : r.1.workspaces.lookup id = d.workspaces.lookup id
  · rw [if_pos hsame, hsame]
    rfl
  · rw [if_neg hsame]
    rfl

/-- What is said of a session whose row was `v` and is `v'`: nothing, one change, or that it is
removed, after its exit. -/
def Tells (news : List SessionChange) (v v' : Option SessionMeta) : Prop :=
  (news = [] ∧ v' = v) ∨ (∃ c, news = [c] ∧ c.onRow v = v' ∧ v'.isSome) ∨
    ∃ exits, news = exits ++ [.removed] ∧ v' = none

theorem Tells.after {news : List SessionChange} {v v' : Option SessionMeta} (h : Tells news v v') :
    Replica.after SessionChange.onRow news v = v' := by
  rcases h with ⟨rfl, rfl⟩ | ⟨c, rfl, hc, -⟩ | ⟨exits, rfl, rfl⟩
  · rfl
  · exact hc
  · rw [Replica.after_concat]
    rfl

theorem Tells.gone {news : List SessionChange} {v : Option SessionMeta} (h : Tells news v none) :
    .removed ∈ news.getLast? ∨ (news = [] ∧ v = none) := by
  rcases h with ⟨rfl, hv⟩ | ⟨c, -, -, hsome⟩ | ⟨exits, rfl, -⟩
  · exact .inr ⟨rfl, hv.symm⟩
  · cases hsome
  · exact .inl (by simp)

/-- A row is told by the one push about it. -/
theorem tells_upsert {m : SessionMeta} {p : ListPush} {c : SessionChange}
    (hp : p.sessionChange? home id = if m.id = id then some c else none)
    (hc : c.onRow (d.sessions.lookup m.id) = some m) :
    Tells ([p].filterMap (ListPush.sessionChange? home id)) (d.sessions.lookup id)
      ((d.upsertSession m).sessions.lookup id) := by
  have hlookup : (d.upsertSession m).sessions.lookup id =
      if id = m.id then some m else d.sessions.lookup id := KeyedTable.lookup_upsert
  rw [hlookup, List.filterMap_cons, hp]
  by_cases hid : m.id = id
  · rw [if_pos hid, if_pos hid.symm, ← hid]
    exact .inr (.inl ⟨c, rfl, hc, rfl⟩)
  · rw [if_neg hid, if_neg (Ne.symm hid)]
    exact .inl ⟨rfl, rfl⟩

theorem tells_removeWorkspace (h : d.Homed home) (w : String) (x : ExitRecord) :
    Tells ((((d.sessions.rows.filter fun m : SessionMeta => m.workspaceId = w && m.isActive).map
        fun m : SessionMeta => ListPush.childExited m.id x) ++
        [ListPush.workspaceRemoved w]).filterMap (ListPush.sessionChange? home id))
      (d.sessions.lookup id)
      ((d.dropWorkspace w).sessions.lookup id) := by
  have hlast : [ListPush.workspaceRemoved w].filterMap (ListPush.sessionChange? home id) =
      if w = home id then [.removed] else [] := by
    rw [List.filterMap_cons]
    by_cases hw : w = home id
    · simp [ListPush.sessionChange?, hw]
    · simp [ListPush.sessionChange?, hw]
  rw [List.filterMap_append, hlast, AppLists.sessions_dropWorkspace h]
  by_cases hw : w = home id
  · rw [if_pos hw, if_pos hw]
    exact .inr (.inr ⟨_, rfl, rfl⟩)
  · rw [if_neg hw, if_neg hw, List.append_nil, List.filterMap_map]
    refine .inl ⟨List.filterMap_eq_nil_iff.2 fun m hm => if_neg fun hid => ?_, rfl⟩
    obtain ⟨hm, hlive⟩ := List.mem_filter.1 hm
    rw [Bool.and_eq_true, decide_eq_true_iff] at hlive
    rw [← hid, ← h m hm, hlive.1] at hw
    exact hw rfl

/-- The pushes of a verb tell of a session what the daemon does to it. -/
theorem serve_tells (h : d.Homed home) {v : DaemonVerb} (hr : d.serve v = some r)
    (hne : r.2 ≠ []) :
    Tells (r.2.filterMap (ListPush.sessionChange? home id)) (d.sessions.lookup id)
      (r.1.sessions.lookup id) := by
  cases v with
  | createSession m =>
    obtain ⟨-, ⟨⟩⟩ := Option.ite_none_right_eq_some.1 hr
    exact tells_upsert (c := .created m) rfl rfl
  | setStatus s u =>
    obtain ⟨m, hm, rfl⟩ := Option.map_eq_some_iff.1 hr
    obtain rfl := KeyedTable.key_eq hm
    refine tells_upsert (c := .status u) rfl ?_
    show (d.sessions.lookup m.id).map _ = _
    rw [hm]
    rfl
  | exit s x =>
    obtain ⟨m, hm, hr⟩ := Option.bind_eq_some_iff.1 hr
    obtain rfl := KeyedTable.key_eq hm
    obtain ⟨-, ⟨⟩⟩ := Option.ite_none_right_eq_some.1 hr
    refine tells_upsert (c := .exited x) rfl ?_
    show (d.sessions.lookup m.id).map _ = _
    rw [hm]
    rfl
  | kill s x =>
    obtain ⟨m, hm, rfl⟩ := Option.map_eq_some_iff.1 hr
    obtain rfl := KeyedTable.key_eq hm
    split_ifs at hne ⊢
    · refine tells_upsert (c := .exited x) rfl ?_
      show (d.sessions.lookup m.id).map _ = _
      rw [hm]
      rfl
    · exact absurd rfl hne
  | createWorkspace w =>
    cases hr
    exact .inl ⟨rfl, rfl⟩
  | setRoots s rootPath roots =>
    obtain ⟨w, -, rfl⟩ := Option.map_eq_some_iff.1 hr
    exact .inl ⟨rfl, rfl⟩
  | removeWorkspace w x =>
    obtain ⟨-, -, rfl⟩ := Option.map_eq_some_iff.1 hr
    exact tells_removeWorkspace h w x

/-- The same of a workspace, which a verb sets or removes by the one push about it. -/
theorem after_serve_workspaces {v : DaemonVerb} (hr : d.serve v = some r) (hne : r.2 ≠ []) :
    Replica.after setWorkspace (r.2.filterMap (ListPush.workspaceChange? id))
      (d.workspaces.lookup id) = r.1.workspaces.lookup id := by
  have hexits (ms : List SessionMeta) (x : ExitRecord) :
      (ms.map fun m => .childExited m.id x).filterMap (ListPush.workspaceChange? id) = [] := by
    rw [List.filterMap_map]
    exact List.filterMap_eq_nil_iff.2 fun m _ => rfl
  have hpush (p : ListPush) : Replica.after setWorkspace
      ([p].filterMap (ListPush.workspaceChange? id)) (d.workspaces.lookup id) =
        (d.onPush p).workspaces.lookup id := by
    rw [AppLists.workspaces_onPush, List.filterMap_cons]
    rcases p.workspaceChange? id with _ | c <;> rfl
  cases v with
  | createSession m =>
    obtain ⟨-, ⟨⟩⟩ := Option.ite_none_right_eq_some.1 hr
    rfl
  | setStatus s u =>
    obtain ⟨m, -, rfl⟩ := Option.map_eq_some_iff.1 hr
    rfl
  | exit s x =>
    obtain ⟨m, -, hr⟩ := Option.bind_eq_some_iff.1 hr
    obtain ⟨-, ⟨⟩⟩ := Option.ite_none_right_eq_some.1 hr
    rfl
  | kill s x =>
    obtain ⟨m, -, rfl⟩ := Option.map_eq_some_iff.1 hr
    split_ifs at hne ⊢
    · rfl
    · exact absurd rfl hne
  | createWorkspace w =>
    cases hr
    exact hpush (.workspaceCreated w)
  | setRoots s rootPath roots =>
    obtain ⟨w, -, rfl⟩ := Option.map_eq_some_iff.1 hr
    exact hpush (.workspaceUpdated _)
  | removeWorkspace w x =>
    obtain ⟨-, -, rfl⟩ := Option.map_eq_some_iff.1 hr
    rw [List.filterMap_append, hexits]
    exact hpush (.workspaceRemoved w)

/-- The record of a verb makes the daemon's row what it is then. -/
theorem after_sessionChanges (h : d.Homed home) {v : DaemonVerb} (hr : d.serve v = some r) :
    Replica.after SessionChange.onRow ((changes d r).filterMap (ListChange.sessionChange? home id))
      (d.sessions.lookup id) = r.1.sessions.lookup id := by
  by_cases hne : r.2 = []
  · exact after_untold_sessions hne
  · rw [sessionChanges_of_pushes hne]
    exact (serve_tells h hr hne).after

theorem after_workspaceChanges {v : DaemonVerb} (hr : d.serve v = some r) :
    Replica.after setWorkspace ((changes d r).filterMap (ListChange.workspaceChange? id))
      (d.workspaces.lookup id) = r.1.workspaces.lookup id := by
  by_cases hne : r.2 = []
  · exact after_untold_workspaces hne
  · rw [workspaceChanges_of_pushes hne]
    exact after_serve_workspaces hr hne

end ListsState

end BuilderPro
