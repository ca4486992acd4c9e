import BuilderPro.Lib.KeyedTable
import BuilderPro.Lib.Runs
import BuilderPro.Sessiond.StatusPushes

/-!
# The renderer's sessions and workspaces

The store (`store.ts`) keeps the daemon's sessions and workspaces by the events that the core emits,
by the replies of the user's own commands, and by hydrates, which put the rows that the daemon lists
over the store's and take none away (`App.tsx`).  A change of the daemon and the events that tell of
it are one step; a session that is killed stays listed as exited, and one without a PTY is not.
-/

namespace BuilderPro

structure Workspace where
  id : String
  name : String
  rootPath : String
  roots : List String
  deriving DecidableEq, Repr

/-- The daemon's pushes that the core turns into events of the webview. -/
inductive ListPush
  | sessionCreated (m : SessionMeta)
  | stateChanged (sessionId : String) (u : StatusUpdate)
  | childExited (sessionId : String) (x : ExitRecord)
  | workspaceCreated (w : Workspace)
  | workspaceUpdated (w : Workspace)
  | workspaceRemoved (workspaceId : String)
  deriving DecidableEq

/-- The store's `markExited`, of an entry that is there. -/
def SessionMeta.markExited (m : SessionMeta) (x : ExitRecord) : SessionMeta :=
  { m with isActive := false, waitingForInput := false, lifecycle := x.lifecycle }

structure AppLists where
  sessions : KeyedTable SessionMeta.id
  workspaces : KeyedTable Workspace.id

namespace AppLists

variable (l : AppLists)

def upsertSession (m : SessionMeta) : AppLists := { l with sessions := l.sessions.upsert m }

def removeSession (id : String) : AppLists := { l with sessions := l.sessions.erase id }

def setLifecycle (id : String) (u : StatusUpdate) : AppLists :=
  { l with sessions := l.sessions.modify id (·.setLifecycle u) }

def markExited (id : String) (x : ExitRecord) : AppLists :=
  { l with sessions := l.sessions.modify id (·.markExited x) }

def upsertWorkspace (w : Workspace) : AppLists := { l with workspaces := l.workspaces.upsert w }

def dropWorkspace (id : String) : AppLists :=
  ⟨l.sessions.keep (·.workspaceId ≠ id), l.workspaces.erase id⟩

/-- The event's subscription. -/
def onPush : ListPush → AppLists
  | .sessionCreated m => l.upsertSession m
  | .stateChanged id u => l.setLifecycle id u
  | .childExited id x => l.markExited id x
  | .workspaceCreated w | .workspaceUpdated w => l.upsertWorkspace w
  | .workspaceRemoved id => l.dropWorkspace id

/-- A hydrate's lists. -/
def hydrate (workspaces : KeyedTable Workspace.id) (sessions : KeyedTable SessionMeta.id) :
    AppLists :=
  sessions.rows.foldl upsertSession (workspaces.rows.foldl upsertWorkspace l)

end AppLists

/-- What the daemon does by itself or for a client. -/
inductive DaemonVerb
  | createSession (m : SessionMeta)
  | setStatus (id : String) (u : StatusUpdate)
  | exit (id : String) (x : ExitRecord)
  | kill (id : String) (x : ExitRecord)
  | createWorkspace (w : Workspace)
  | setRoots (id : String) (rootPath : String) (roots : List String)
  | removeWorkspace (id : String) (x : ExitRecord)
  deriving DecidableEq

/-- The daemon's lists after a verb and the pushes to every client; `none` is an error. -/
def AppLists.serve (d : AppLists) : DaemonVerb → Option (AppLists × List ListPush)
  | .createSession m =>
    if (d.workspaces.lookup m.workspaceId).isSome then
      some (d.upsertSession m, [.sessionCreated m])
    else none
  | .setStatus id u => (d.sessions.lookup id).map fun m =>
    (d.upsertSession
      { m with lifecycle := u.lifecycle, waitingForInput := u.waitingForInput, cwd := u.cwd },
      [.stateChanged id u])
  | .exit id x => (d.sessions.lookup id).bind fun m =>
    if m.isActive then some (d.upsertSession (m.markExited x), [.childExited id x]) else none
  | .kill id x => (d.sessions.lookup id).map fun m =>
    if m.isActive then (d.upsertSession (m.markExited x), [.childExited id x])
    else (d.removeSession id, [])
  | .createWorkspace w => some (d.upsertWorkspace w, [.workspaceCreated w])
  | .setRoots id rootPath roots => (d.workspaces.lookup id).map fun w =>
    let w := { w with rootPath, roots }
    (d.upsertWorkspace w, [.workspaceUpdated w])
  | .removeWorkspace id x => (d.workspaces.lookup id).map fun _ =>
    let live := d.sessions.rows.filter fun m => m.workspaceId = id && m.isActive
    (d.dropWorkspace id, (live.map fun m => .childExited m.id x) ++ [.workspaceRemoved id])

/-- A command of the user's, with what is done with its reply: some callers put a workspace in the
store at once, others leave that to the event. -/
inductive OwnCall
  | createSession (m : SessionMeta)
  | killSession (id : String) (x : ExitRecord)
  | createWorkspace (w : Workspace) (upserts : Bool)
  | setRoots (id : String) (rootPath : String) (roots : List String) (upserts : Bool)
  | removeWorkspace (id : String) (x : ExitRecord)
  deriving DecidableEq

def OwnCall.verb : OwnCall → DaemonVerb
  | .createSession m => .createSession m
  | .killSession id x => .kill id x
  | .createWorkspace w _ => .createWorkspace w
  | .setRoots id rootPath roots _ => .setRoots id rootPath roots
  | .removeWorkspace id x => .removeWorkspace id x

/-- What the continuation of a command does to the store. -/
inductive OwnReply
  | upsertWorkspace (w : Workspace)
  | removeSession (id : String)
  | dropWorkspace (id : String)
  | nothing
  deriving DecidableEq

/-- The continuation once the daemon has done what it was asked. -/
def OwnCall.done (d : AppLists) : OwnCall → OwnReply
  | .killSession id _ => .removeSession id
  | .createWorkspace w true => .upsertWorkspace w
  | .setRoots id _ _ true => ((d.workspaces.lookup id).map .upsertWorkspace).getD .nothing
  | .removeWorkspace id _ => .dropWorkspace id
  | _ => .nothing

/-- The continuation after a rejection: a tab that is closed is closed all the same. -/
def OwnCall.rejected : OwnCall → OwnReply
  | .killSession id _ => .removeSession id
  | _ => .nothing

def AppLists.onReply (l : AppLists) : OwnReply → AppLists
  | .upsertWorkspace w => l.upsertWorkspace w
  | .removeSession id => l.removeSession id
  | .dropWorkspace id => l.dropWorkspace id
  | .nothing => l

inductive AppEvent
  | push (p : ListPush)
  | daemonDisconnected
  | daemonReconnected
  deriving DecidableEq

def AppEvent.push? : AppEvent → Option ListPush
  | .push p => some p
  | _ => none

/-- A change of the daemon's lists: by a push, or without one. -/
inductive ListChange
  | push (p : ListPush)
  | untold (before after : AppLists)

/-- A hydrate that waits for its two lists, each with the number of changes when it was read. -/
structure Hydrate where
  workspaces : Option (ℕ × KeyedTable Workspace.id)
  sessions : Option (ℕ × KeyedTable SessionMeta.id)
  /-- It began after the daemon's last change and the last reconnect. -/
  fresh : Bool

structure ListsState where
  daemon : AppLists
  connected : Bool
  /-- The pushes on the connection. -/
  wire : List ListPush
  /-- The core's events that are yet to be handled. -/
  events : List AppEvent
  hydrates : List Hydrate
  calls : List OwnCall
  /-- Each with the number of changes when it was made. -/
  replies : List (ℕ × OwnReply)
  store : AppLists
  /-- The last hydrate to be put in the store, or one before it, was fresh, and nothing has changed
  since. -/
  caughtUp : Bool
  /-- The changes of the daemon's lists; a record of the run, not of the code. -/
  log : List ListChange

inductive ListsAction
  | serve (v : DaemonVerb)
  /-- The daemon comes back with what it has kept. -/
  | restart (rows : AppLists)
  | disconnect
  | reconnect
  | emit
  | handle
  | beginHydrate
  | answerWorkspaces (i : ℕ)
  | answerSessions (i : ℕ)
  | rejectHydrate (i : ℕ)
  | hydrate (i : ℕ)
  | call (c : OwnCall)
  | serveCall (i : ℕ)
  | rejectCall (i : ℕ)
  | resume (i : ℕ)

namespace ListsState

def init (daemon : AppLists) : ListsState :=
  ⟨daemon, true, [], [], [], [], [], ⟨.empty, .empty⟩, false, []⟩

variable (st : ListsState)

/-- The daemon has changed or is another one. -/
def outdate : ListsState :=
  { st with hydrates := st.hydrates.map ({ · with fresh := false }), caughtUp := false }

/-- A change without a push is one of its own. -/
def changes (d : AppLists) (r : AppLists × List ListPush) : List ListChange :=
  if r.2 = [] then [.untold d r.1] else r.2.map .push

/-- The daemon's lists become others, and the clients that are connected are told. -/
def change (r : AppLists × List ListPush) : ListsState :=
  { st.outdate with
    daemon := r.1, wire := if st.connected then st.wire ++ r.2 else st.wire
    log := st.log ++ changes st.daemon r }

/-- A reply with what the continuation does. -/
def reply (r : OwnReply) : ListsState :=
  { st with replies := st.replies ++ [(st.log.length, r)] }

/-- Without a connection the list calls are rejected at once. -/
def beginHydrate : ListsState :=
  if st.connected then { st with hydrates := st.hydrates ++ [⟨none, none, true⟩] } else st

/-- The connection ends: what is on it is lost, and what waits for an answer is rejected. -/
def disconnect : ListsState :=
  { st.outdate with
    connected := false, wire := [], events := st.events ++ [.daemonDisconnected]
    hydrates := st.outdate.hydrates.filter fun h => h.workspaces.isSome && h.sessions.isSome
    calls := [], replies := st.replies ++ st.calls.map fun c => (st.log.length, c.rejected) }

def onEvent (st : ListsState) : AppEvent → ListsState
  | .push p => { st with store := st.store.onPush p }
  | .daemonDisconnected => st
  | .daemonReconnected => st.beginHydrate

def answer (i : ℕ) (f : Hydrate → Option Hydrate) : Option ListsState :=
  if st.connected then
    (st.hydrates[i]?.bind f).map fun h => { st with hydrates := st.hydrates.set i h }
  else none

def step : ListsAction → Option ListsState
  | .serve v => (st.daemon.serve v).map st.change
  | .restart rows => if st.connected then none else some (st.change (rows, []))
  | .disconnect => if st.connected then some st.disconnect else none
  | .reconnect =>
    if st.connected then none
    else some { st.outdate with connected := true, events := st.events ++ [.daemonReconnected] }
  | .emit => match st.wire with
    | p :: wire => some { st with wire, events := st.events ++ [.push p] }
    | [] => none
  | .handle => match st.events with
    | e :: events => some (onEvent { st with events } e)
    | [] => none
  | .beginHydrate => some st.beginHydrate
  | .answerWorkspaces i => st.answer i fun h =>
    if h.workspaces.isNone then
      some { h with workspaces := some (st.log.length, st.daemon.workspaces) }
    else none
  | .answerSessions i => st.answer i fun h =>
    if h.sessions.isNone then
      some { h with sessions := some (st.log.length, st.daemon.sessions) }
    else none
  | .rejectHydrate i => st.hydrates[i]?.map fun _ =>
    { st with hydrates := st.hydrates.eraseIdx i }
  | .hydrate i => st.hydrates[i]?.bind fun h =>
    match h.workspaces, h.sessions with
    | some ws, some ss => some { st with
      hydrates := st.hydrates.eraseIdx i, store := st.store.hydrate ws.2 ss.2
      caughtUp := st.caughtUp || h.fresh }
    | _, _ => none
  | .call c => some (if st.connected then { st with calls := st.calls ++ [c] }
    else st.reply c.rejected)
  | .serveCall i => st.calls[i]?.map fun c =>
    let st' := { st with calls := st.calls.eraseIdx i }
    match st.daemon.serve c.verb with
    | some r => (st'.change r).reply (c.done r.1)
    | none => st'.reply c.rejected
  | .rejectCall i => st.calls[i]?.map fun c =>
    reply { st with calls := st.calls.eraseIdx i } c.rejected
  | .resume i => st.replies[i]?.map fun r =>
    { st with replies := st.replies.eraseIdx i, store := st.store.onReply r.2 }

def pending : List ListPush := st.events.filterMap AppEvent.push? ++ st.wire

/-- Nothing is on its way. -/
def AtRest : Prop := st.wire = [] ∧ st.events = [] ∧ st.hydrates = [] ∧ st.calls = [] ∧
  st.replies = []

end ListsState

end BuilderPro
