import BuilderPro.App.ListRecord

/-!
# Orders in which the store's lists go right

A removal is missed when a row leaves the daemon's lists and no event about it reaches the store,
which goes on showing the row (`NoneMissed`, `NoneLost`).  A row is put in late when an event of a
change made after it was read has been handled (`SessionInTurn`, `WorkspaceInTurn`), and taken out
late when the store has it from the daemon's last lists (`ReplyInTurn`).
-/

namespace BuilderPro

/-- The rows that a push brings. -/
def ListPush.sessionIds : ListPush → List String
  | .sessionCreated m => [m.id]
  | _ => []

def ListPush.workspaceIds : ListPush → List String
  | .workspaceCreated w | .workspaceUpdated w => [w.id]
  | _ => []

/-- The reply takes the session out of the store. -/
def OwnReply.takesOutSession (home : String → String) (id : String) : OwnReply → Bool
  | .removeSession s => s = id
  | .dropWorkspace w => w = home id
  | .upsertWorkspace _ | .nothing => false

def OwnReply.takesOutWorkspace (id : String) : OwnReply → Bool
  | .dropWorkspace w => w = id
  | .upsertWorkspace _ | .removeSession _ | .nothing => false

namespace ListsState

variable (st : ListsState) (home : String → String)

/-- The events of a session on their way. -/
def comingSession (id : String) : List SessionChange :=
  st.pending.filterMap (ListPush.sessionChange? home id)

def comingWorkspace (id : String) : List (Option Workspace) :=
  st.pending.filterMap (ListPush.workspaceChange? id)

/-- The changes of a session from some number on. -/
def sessionsSince (k : ℕ) (id : String) : List SessionChange :=
  (st.log.drop k).filterMap (ListChange.sessionChange? home id)

def workspacesSince (k : ℕ) (id : String) : List (Option Workspace) :=
  (st.log.drop k).filterMap (ListChange.workspaceChange? id)

/-- The sessions that the store shows or is about to. -/
def knownSessions : List String :=
  st.store.sessions.rows.map SessionMeta.id ++ st.pending.flatMap ListPush.sessionIds

def knownWorkspaces : List String :=
  st.store.workspaces.rows.map Workspace.id ++ st.pending.flatMap ListPush.workspaceIds

def SessionTakenOut (id : String) : Prop := ∃ r ∈ st.replies, r.2.takesOutSession home id

def WorkspaceTakenOut (id : String) : Prop := ∃ r ∈ st.replies, r.2.takesOutWorkspace id

/-- The last event of a session on its way is its removal, or a reply takes it out. -/
def SessionLeaves (id : String) : Prop :=
  (st.comingSession home id).getLast? = some .removed ∨ st.SessionTakenOut home id

def WorkspaceLeaves (id : String) : Prop :=
  (st.comingWorkspace id).getLast? = some none ∨ st.WorkspaceTakenOut id

/-- Of the rows that the daemon drops, the store shows none that does not leave it anyway. -/
def NoneMissed (rows : AppLists) : Prop :=
  (∀ id ∈ st.knownSessions, (st.daemon.sessions.lookup id).isSome →
    rows.sessions.lookup id = none → st.SessionLeaves home id) ∧
  ∀ id ∈ st.knownWorkspaces, (st.daemon.workspaces.lookup id).isSome →
    rows.workspaces.lookup id = none → st.WorkspaceLeaves id

/-- The same of the removals that are lost with the connection. -/
def NoneLost : Prop :=
  (∀ id ∈ st.disconnect.knownSessions,
    .removed ∈ st.wire.filterMap (ListPush.sessionChange? home id) →
      st.disconnect.SessionLeaves home id) ∧
  ∀ id ∈ st.disconnect.knownWorkspaces,
    none ∈ st.wire.filterMap (ListPush.workspaceChange? id) → st.disconnect.WorkspaceLeaves id

/-- A row that was read at some number is put in the store.  One that the daemon lists no longer is
put in before its removal.  One that it lists is put in, as long as it matters, before the event of
any change made since; no event is missing after the first on its way, and the statuses come in
order. -/
def SessionInTurn (matters : Prop) (k : ℕ) (m : SessionMeta) : Prop :=
  (st.daemon.sessions.lookup m.id = none → st.SessionLeaves home m.id) ∧
  ∀ row ∈ st.daemon.sessions.lookup m.id, matters →
    st.sessionsSince home k m.id <:+ st.comingSession home m.id ∧
    st.comingSession home m.id <:+ st.sessionsSince home 0 m.id ∧
    SessionChange.StatusesInOrder m row (st.comingSession home m.id) (st.sessionsSince home k m.id)

/-- The same of a workspace, of which the last event says everything: once the store has caught up
there is one on its way, if there are changes since, and before, the last is that of the last
change. -/
def WorkspaceInTurn (fresh : Prop) (k : ℕ) (w : Workspace) : Prop :=
  (st.daemon.workspaces.lookup w.id = none → st.WorkspaceLeaves w.id) ∧
  ((st.daemon.workspaces.lookup w.id).isSome →
    if st.caughtUp then st.comingWorkspace w.id = [] → st.workspacesSince k w.id = []
    else fresh → st.comingWorkspace w.id <:+ st.workspacesSince 0 w.id)

def HydrateInTurn (h : Hydrate) : Prop :=
  (∀ t ∈ h.sessions, ∀ m ∈ t.2.rows, st.SessionInTurn home (h.fresh ∨ st.caughtUp) t.1 m) ∧
    ∀ t ∈ h.workspaces, ∀ w ∈ t.2.rows, st.WorkspaceInTurn h.fresh t.1 w

/-- A continuation, which is no longer among the replies.  Once the store has caught up, what it
takes out is not what the daemon lists, unless an event brings it back, and no event brings back
what the daemon does not list. -/
def ReplyInTurn (k : ℕ) (r : OwnReply) : Prop :=
  (∀ w, r = .upsertWorkspace w → st.WorkspaceInTurn False k w) ∧
  (st.caughtUp → (∀ m ∈ st.daemon.sessions.rows, r.takesOutSession home m.id →
      ∃ c ∈ st.comingSession home m.id, c.isCreated) ∧
    ∀ w ∈ st.daemon.workspaces.rows, r.takesOutWorkspace w.id → st.comingWorkspace w.id ≠ []) ∧
  (∀ id ∈ st.pending.flatMap ListPush.sessionIds, r.takesOutSession home id →
    st.daemon.sessions.lookup id = none → st.SessionLeaves home id) ∧
  ∀ id ∈ st.pending.flatMap ListPush.workspaceIds, r.takesOutWorkspace id →
    st.daemon.workspaces.lookup id = none → st.WorkspaceLeaves id

/-- No removal is missed, and rows are put in and taken out before the events of later changes. -/
def InTurn : ListsAction → Prop
  | .serve v => v.Homed home ∧ ∀ r ∈ st.daemon.serve v,
      ¬(st.connected ∧ r.2 ≠ []) → st.NoneMissed home r.1
  | .restart rows => rows.Homed home ∧ st.NoneMissed home rows
  | .disconnect => st.NoneLost home
  | .serveCall i => ∀ c ∈ st.calls[i]?, c.verb.Homed home
  | .hydrate i => ∀ h ∈ st.hydrates[i]?, st.HydrateInTurn home h
  | .resume i => ∀ r ∈ st.replies[i]?,
      ReplyInTurn { st with replies := st.replies.eraseIdx i } home r.1 r.2
  | _ => True

section Decidable

variable (id : String) (matters : Prop) [Decidable matters] (k : ℕ)

instance : Decidable (st.SessionTakenOut home id) :=
  inferInstanceAs (Decidable (∃ r ∈ st.replies, _))

instance : Decidable (st.WorkspaceTakenOut id) :=
  inferInstanceAs (Decidable (∃ r ∈ st.replies, _))

instance : Decidable (st.SessionLeaves home id) := inferInstanceAs (Decidable (_ ∨ _))

instance : Decidable (st.WorkspaceLeaves id) := inferInstanceAs (Decidable (_ ∨ _))

instance (rows : AppLists) : Decidable (st.NoneMissed home rows) :=
  inferInstanceAs (Decidable (_ ∧ _))

instance : Decidable (st.NoneLost home) := inferInstanceAs (Decidable (_ ∧ _))

instance (m : SessionMeta) : Decidable (st.SessionInTurn home matters k m) :=
  inferInstanceAs (Decidable (_ ∧ _))

instance (w : Workspace) : Decidable (st.WorkspaceInTurn matters k w) :=
  inferInstanceAs (Decidable (_ ∧ (_ → ite _ _ _)))

instance (h : Hydrate) : Decidable (st.HydrateInTurn home h) :=
  inferInstanceAs (Decidable (_ ∧ _))

instance (r : OwnReply) : Decidable (∀ w, r = .upsertWorkspace w → st.WorkspaceInTurn False k w) :=
  match r with
  | .upsertWorkspace w => decidable_of_iff (st.WorkspaceInTurn False k w)
      ⟨fun h _ hw => by cases hw; exact h, fun h => h w rfl⟩
  | .removeSession _ | .dropWorkspace _ | .nothing => isTrue nofun

instance (r : OwnReply) : Decidable (st.ReplyInTurn home k r) :=
  inferInstanceAs (Decidable (_ ∧ (_ → _ ∧ _) ∧ _ ∧ _))

instance : (a : ListsAction) → Decidable (st.InTurn home a)
  | .serve v => inferInstanceAs (Decidable (_ ∧ ∀ r ∈ st.daemon.serve v, _))
  | .restart _ => inferInstanceAs (Decidable (_ ∧ _))
  | .disconnect => inferInstanceAs (Decidable (st.NoneLost home))
  | .serveCall i => inferInstanceAs (Decidable (∀ c ∈ st.calls[i]?, _))
  | .hydrate i => inferInstanceAs (Decidable (∀ h ∈ st.hydrates[i]?, _))
  | .resume i => inferInstanceAs (Decidable (∀ r ∈ st.replies[i]?, _))
  | .reconnect | .emit | .handle | .beginHydrate | .answerWorkspaces _ | .answerSessions _
  | .rejectHydrate _ | .call _ | .rejectCall _ => isTrue trivial

end Decidable

end ListsState

end BuilderPro
