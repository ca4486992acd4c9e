import BuilderPro.Lib.Runs
import BuilderPro.Sessiond.Database

/-!
# The daemon

`socket_server.rs` and `boot.rs`: what the connections' requests share, and each request as it runs
when no other runs next to it.  The final flush of a session that has ended is a task of its own.
-/

namespace BuilderPro

/-- The reader and wait threads of a session: what they hold, and whether they are through. -/
structure Pty where
  parser : OscParser
  eof : Bool
  waited : Bool

/-- A supervisor's session; one that was rehydrated has no PTY, and is never active. -/
structure Session where
  shared : Shared
  pty : Option Pty
  inactive : pty = none → shared.isActive = false

def Session.id (s : Session) : String := s.shared.id

def Session.withPty (sh : Shared) (p : Pty) : Session := ⟨sh, some p, nofun⟩

/-- A task that runs `flush_session_final`. -/
structure FinalFlush where
  sessionMeta : SessionMeta
  scrollback : List UInt8
  events : List CommandEvent

/-- `flush_session_final`. -/
def Db.flushSessionFinal (db : Db) (f : FinalFlush) : Db :=
  ((db.tryUpsertSession f.sessionMeta).tryAppendScrollback f.sessionMeta.id
    f.scrollback).tryAppendCommandEvents f.sessionMeta.id f.events

structure SessionSpec where
  title : String
  shell : String
  cwd : String
  cols : UInt16
  rows : UInt16
  deriving DecidableEq, Repr

inductive Response
  | ack
  | session (m : SessionMeta)
  | error (code message : String)
  deriving DecidableEq, Repr

def noSuchSession (sessionId : String) : Response :=
  .error "NoSuchSession" ("no session " ++ sessionId)

def noSuchWorkspace (workspaceId : String) : Response :=
  .error "NoSuchWorkspace" ("no workspace " ++ workspaceId)

/-- `PersistError::Sql`, of a workspace that has no row. -/
def workspaceNotFound (workspaceId : String) : Response :=
  .error "DbSql" ("db sql error: workspace " ++ workspaceId ++ " not found")

structure ServerDeps where
  db : Db
  /-- The supervisor's map. -/
  sessions : KeyedTable Session.id
  /-- The attach registry's keys. -/
  attach : List (String × ℕ)
  liveSessions : List String
  closingWorkspaces : List String
  /-- The final flushes that have not run yet. -/
  finalFlushes : List FinalFlush
  /-- The handles of final flushes that no one has waited for, by the session's id. -/
  pendingFinalFlushes : List String
  /-- The ids that `Uuid::new_v4` has given; a record of the run, not of the code. -/
  usedIds : List String

namespace Shared

variable (sh : Shared)

/-- What the wait thread records. -/
def recordExit (x : ExitRecord) : Shared :=
  { sh with
    isActive := false
    exitCode := x.code
    exitSignal := x.signal
    lifecycle := x.lifecycle
    waiting := false }

/-- What the reader does with a chunk. -/
def readChunk (evs : List OscEvent) (chunk : List UInt8) (now : Int) : Shared :=
  (evs.foldl (fun sh ev => (sh.advance ev).record ev now) sh).pushScrollback chunk

end Shared

namespace ServerDeps

def boot (db : Db) (usedIds : List String) : ServerDeps where
  db := db
  sessions := .empty
  attach := []
  liveSessions := []
  closingWorkspaces := []
  finalFlushes := []
  pendingFinalFlushes := []
  usedIds := usedIds

variable (d : ServerDeps)

/-- `Supervisor::meta`. -/
def getMeta (id : String) : Option SessionMeta :=
  (d.sessions.lookup id).map fun s => s.shared.getMeta

/-! ## The supervisor -/

/-- `Supervisor::create`, of a child with a PTY. -/
def spawn (workspaceId : String) (spec : SessionSpec) (id : String) (now : Int) : ServerDeps :=
  let sh := freshShared id workspaceId spec.title spec.shell spec.cwd spec.cols spec.rows now
  { d with
    sessions := d.sessions.upsert (.withPty sh ⟨OscParser.new, false, false⟩)
    usedIds := d.usedIds.insert id }

/-- The reader's work on a chunk. -/
def output (id : String) (chunk : List UInt8) (now : Int) : ServerDeps :=
  { d with sessions := d.sessions.modify id fun s =>
      match s.pty with
      | some p =>
        if p.eof then s
        else
          let r := p.parser.feed chunk
          .withPty (s.shared.readChunk r.1 chunk now) { p with parser := r.2 }
      | none => s }

def eof (id : String) : ServerDeps :=
  { d with sessions := d.sessions.modify id fun s =>
      match s.pty with
      | some p => .withPty s.shared.setInactive { p with eof := true }
      | none => s }

/-- The ticker's `recompute_waiting`. -/
def tick (id : String) (g : Signals) : ServerDeps :=
  { d with sessions := d.sessions.modify id fun s =>
      if s.shared.isActive then
        ⟨s.shared.storeWaiting (s.shared.lifecycle == .running) g, s.pty, s.inactive⟩
      else s }

/-- The wait thread records the child's end, and its callback schedules the final flush. -/
def childExits (id : String) (status : ExitStatus) : ServerDeps :=
  match d.sessions.lookup id with
  | some ⟨sh, some p, _⟩ =>
    if p.waited then d
    else
      let sh := sh.recordExit status.record
      { d with
        sessions := d.sessions.upsert (.withPty sh.drainCommandEvents.2 { p with waited := true })
        attach := d.attach.filter (·.1 != id)
        finalFlushes := d.finalFlushes ++
          [⟨sh.getMeta, sh.scrollback.snapshot, sh.drainCommandEvents.1⟩]
        pendingFinalFlushes := d.pendingFinalFlushes.filter
          (fun h => d.finalFlushes.any (·.sessionMeta.id == h)) ++ [id] }
  | _ => d

/-- `Supervisor::kill`: the child ends with `status` if it has not ended before; `none` is
`NoSuchSession`. -/
def kill (id : String) (status : ExitStatus) : Option ServerDeps :=
  match d.sessions.lookup id with
  | some ⟨_, some _, _⟩ =>
    let d := d.childExits id status
    some { d with sessions := d.sessions.erase id }
  | _ => none

def removeInactive (id : String) : ServerDeps :=
  match d.sessions.lookup id with
  | some s => if s.shared.isActive then d else { d with sessions := d.sessions.erase id }
  | none => d

def rehydrateInactive (m : SessionMeta) (scrollback : List UInt8) : ServerDeps :=
  if (d.sessions.lookup m.id).any (·.shared.isActive) then d
  else
    let sh : Shared :=
      { id := m.id, workspaceId := m.workspaceId, title := m.title, shell := m.shell, cwd := m.cwd
        cols := m.cols, rows := m.rows, lifecycle := m.lifecycle, isActive := false
        exitCode := none, exitSignal := none
        scrollback := (ScrollbackRing.new scrollbackCap).push scrollback
        waiting := false, createdAt := m.createdAt, pendingCommandEvents := [], commandSeq := 0 }
    { d with sessions := d.sessions.upsert ⟨sh, none, fun _ => rfl⟩ }

/-! ## The tasks -/

/-- The `i`th of the final flushes runs. -/
def runFinalFlush (i : ℕ) : ServerDeps :=
  match d.finalFlushes[i]? with
  | some f => { d with db := d.db.flushSessionFinal f, finalFlushes := d.finalFlushes.eraseIdx i }
  | none => d

def awaitPendingFinalFlushes : ServerDeps :=
  { d with
    db := d.finalFlushes.foldl Db.flushSessionFinal d.db
    finalFlushes := []
    pendingFinalFlushes := [] }

def sweepSession (id : String) : ServerDeps :=
  match d.sessions.lookup id with
  | some s =>
    if s.shared.isActive then
      let db := (d.db.tryUpsertSession s.shared.getMeta).tryAppendScrollback id
        s.shared.scrollback.snapshot
      { d with
        db := db.tryAppendCommandEvents id s.shared.drainCommandEvents.1
        sessions := d.sessions.upsert ⟨s.shared.drainCommandEvents.2, s.pty, s.inactive⟩ }
    else d
  | none => d

def flushScrollbackOnce : ServerDeps :=
  (d.db.sessions.rows.map (·.id)).foldl sweepSession d

/-! ## The requests -/

/-- A row, or the supervisor's own meta of its session. -/
def overlay (m : SessionMeta) : SessionMeta := (d.getMeta m.id).getD m

/-- A live session that has no row. -/
def listTracked (byId : KeyedTable SessionMeta.id) (id : String) : KeyedTable SessionMeta.id :=
  if (byId.lookup id).isSome then byId
  else
    match d.getMeta id with
    | some live => byId.upsert live
    | none => byId

/-- The reply's sessions, by their ids. -/
def listSessions : KeyedTable SessionMeta.id :=
  let persisted := d.db.listSessions.foldl (fun byId m => byId.upsert (d.overlay m)) .empty
  d.liveSessions.foldl d.listTracked persisted

def createSession (workspaceId : String) (spec : Except Response SessionSpec) (id : String)
    (now : Int) : ServerDeps × Response :=
  if d.closingWorkspaces.contains workspaceId || !d.db.workspaceExists workspaceId then
    (d, noSuchWorkspace workspaceId)
  else
    match spec with
    | .error e => (d, e)
    | .ok spec =>
      let d := d.spawn workspaceId spec id now
      match d.getMeta id with
      | some m =>
        ({ d with liveSessions := d.liveSessions.insert id, db := d.db.tryUpsertSession m },
          .session m)
      | none => (d, .error "CreateSessionFailed" ("no such session: " ++ id))

def attachSession (connId : ℕ) (id : String) : ServerDeps × Response :=
  match d.getMeta id with
  | some _ => ({ d with attach := d.attach.insert (id, connId) }, .ack)
  | none => (d, noSuchSession id)

/-- `close_session`. -/
def closeSession (id : String) (status : ExitStatus) : ServerDeps × Response :=
  match d.kill id status with
  | some d => (d, .ack)
  | none =>
    match d.getMeta id with
    | some m =>
      if m.isActive then (d, noSuchSession id)
      else
        let d := { d with attach := d.attach.filter (·.1 != id) }
        let d := d.removeInactive id
        ({ d with
            liveSessions := d.liveSessions.filter (· != id)
            db := d.db.deleteSession id }, .ack)
    | none => (d, noSuchSession id)

def belongs (workspaceId id : String) : Bool :=
  (d.getMeta id).any (·.workspaceId == workspaceId)

/-- The teardown of one of the workspace's sessions. -/
def closeVictim (status : String → ExitStatus) (id : String) : ServerDeps :=
  let d := (d.closeSession id (status id)).1
  { d with liveSessions := d.liveSessions.filter (· != id) }

def removeWorkspace (workspaceId : String) (status : String → ExitStatus) :
    ServerDeps × Response :=
  match d.db.workspaceSessionIds workspaceId with
  | none => (d, workspaceNotFound workspaceId)
  | some ids =>
    let d := { d with closingWorkspaces := d.closingWorkspaces.insert workspaceId }
    let victims := ids ∪ d.liveSessions.filter (d.belongs workspaceId)
    let d := victims.foldl (fun d id => d.closeVictim status id) d
    let d := d.awaitPendingFinalFlushes
    match d.db.deleteWorkspace workspaceId with
    | none =>
      ({ d with closingWorkspaces := d.closingWorkspaces.filter (· != workspaceId) },
        workspaceNotFound workspaceId)
    | some db =>
      let d := { d with db := db }
      let d := d.liveSessions.foldl
        (fun d id => if d.belongs workspaceId id then d.closeVictim status id else d) d
      let d := d.awaitPendingFinalFlushes
      ({ d with closingWorkspaces := d.closingWorkspaces.filter (· != workspaceId) }, .ack)

/-! ## A new process -/

def shutdownAll (status : String → ExitStatus) : ServerDeps :=
  (d.sessions.rows.map (·.id)).foldl (fun d id => (d.kill id (status id)).getD d) d

/-- A process that starts on the database. -/
def coldRehydrate : ServerDeps :=
  d.db.listSessions.foldl (fun e m => e.rehydrateInactive m (d.db.loadScrollback m.id)) d

/-- How a daemon process ends. -/
inductive Stop
  | shutdown (status : String → ExitStatus)
  | crash

def restart : Stop → ServerDeps
  | .shutdown status =>
    let d := (d.shutdownAll status).awaitPendingFinalFlushes
    (boot d.db d.usedIds).coldRehydrate
  | .crash => (boot d.db d.usedIds).coldRehydrate

/-! ## Runs -/

inductive Op
  | createWorkspace (workspaceId : String)
  | createSession (workspaceId : String) (spec : Except Response SessionSpec) (id : String)
      (now : Int)
  | output (id : String) (chunk : List UInt8) (now : Int)
  | eof (id : String)
  | tick (id : String) (g : Signals)
  | childExits (id : String) (status : ExitStatus)
  | attachSession (connId : ℕ) (id : String)
  | killSession (id : String) (status : ExitStatus)
  | removeWorkspace (workspaceId : String) (status : String → ExitStatus)
  | flushScrollbackOnce
  | runFinalFlush (i : ℕ)
  | restart (stop : Stop)

/-- What the daemon does besides creating sessions and workspaces, removing workspaces and
restarting. -/
def Op.background : Op → Bool
  | .output _ _ _ => true
  | .eof _ => true
  | .tick _ _ => true
  | .childExits _ _ => true
  | .attachSession _ _ => true
  | .killSession _ _ => true
  | .flushScrollbackOnce => true
  | .runFinalFlush _ => true
  | _ => false

/-- A new session's id is one that was never used. -/
def step : Op → Option ServerDeps
  | .createWorkspace w => some { d with db := d.db.upsertWorkspace w }
  | .createSession w spec id now =>
    if id ∈ d.usedIds then none else some (d.createSession w spec id now).1
  | .output id chunk now => some (d.output id chunk now)
  | .eof id => some (d.eof id)
  | .tick id g => some (d.tick id g)
  | .childExits id status => some (d.childExits id status)
  | .attachSession connId id => some (d.attachSession connId id).1
  | .killSession id status => some (d.closeSession id status).1
  | .removeWorkspace w status => some (d.removeWorkspace w status).1
  | .flushScrollbackOnce => some d.flushScrollbackOnce
  | .runFinalFlush i => some (d.runFinalFlush i)
  | .restart stop => some (d.restart stop)

def init : ServerDeps := boot Db.empty []

def run (ops : List Op) : Option ServerDeps := Runs.run step d ops

end ServerDeps

end BuilderPro
