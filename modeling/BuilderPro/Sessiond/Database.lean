import BuilderPro.Lib.KeyedTable
import BuilderPro.Sessiond.Session

/-!
# The sessions' database

`persistence.rs`: the tables the sessions live in.  A `session` row references its workspace, and
the `scrollback` and `command_events` rows their session; a write whose reference is missing fails.
-/

namespace BuilderPro

/-- The one `scrollback` row of a session, which has `seq` 0. -/
structure ScrollbackRow where
  sessionId : String
  bytes : List UInt8
  deriving DecidableEq, Repr

structure CommandRow where
  sessionId : String
  event : CommandEvent
  deriving DecidableEq, Repr

def CommandRow.key (r : CommandRow) : String × ℕ := (r.sessionId, r.event.seq)

/-- A row as it is read back: nothing is active, and a command that ran has been aborted. -/
def SessionRow.read (r : SessionRow) : SessionMeta where
  id := r.id
  workspaceId := r.workspaceId
  title := r.title
  shell := r.shell
  cwd := r.cwd
  cols := r.cols
  rows := r.rows
  lifecycle :=
    match r.lifecycle with
    | .running => .exited none none
    | l => l
  waitingForInput := false
  isActive := false
  createdAt := r.createdAt

structure Db where
  /-- The ids of the `workspace` rows. -/
  workspaces : List String
  sessions : KeyedTable SessionRow.id
  scrollback : KeyedTable ScrollbackRow.sessionId
  commandEvents : KeyedTable CommandRow.key

namespace Db

def empty : Db := ⟨[], .empty, .empty, .empty⟩

variable (db : Db)

def workspaceExists (workspaceId : String) : Bool := db.workspaces.contains workspaceId

def upsertWorkspace (workspaceId : String) : Db :=
  { db with workspaces := db.workspaces.insert workspaceId }

def upsertSession (m : SessionMeta) : Option Db :=
  if db.workspaceExists m.workspaceId then some { db with sessions := db.sessions.upsert m.row }
  else none

/-- `list_sessions`, in no particular order. -/
def listSessions : List SessionMeta := db.sessions.rows.map SessionRow.read

def appendScrollback (sessionId : String) (bytes : List UInt8) : Option Db :=
  (db.sessions.lookup sessionId).map fun _ =>
    { db with scrollback := db.scrollback.upsert ⟨sessionId, bytes⟩ }

def loadScrollback (sessionId : String) : List UInt8 :=
  ((db.scrollback.lookup sessionId).map ScrollbackRow.bytes).getD []

def appendCommandEvent (sessionId : String) (ev : CommandEvent) : Option Db :=
  (db.sessions.lookup sessionId).map fun _ =>
    { db with commandEvents := db.commandEvents.upsert ⟨sessionId, ev⟩ }

/-- `none`: there is no such workspace. -/
def workspaceSessionIds (workspaceId : String) : Option (List String) :=
  if db.workspaceExists workspaceId then
    some ((db.sessions.rows.filter (·.workspaceId == workspaceId)).map (·.id))
  else none

def deleteSession (sessionId : String) : Db :=
  { db with
    commandEvents := db.commandEvents.keep (·.sessionId != sessionId)
    scrollback := db.scrollback.erase sessionId
    sessions := db.sessions.erase sessionId }

/-- `none`: there is no such workspace. -/
def deleteWorkspace (workspaceId : String) : Option Db :=
  (db.workspaceSessionIds workspaceId).map fun ids =>
    { workspaces := db.workspaces.filter (· != workspaceId)
      commandEvents := db.commandEvents.keep fun r => !ids.contains r.sessionId
      scrollback := db.scrollback.keep fun r => !ids.contains r.sessionId
      sessions := db.sessions.keep (·.workspaceId != workspaceId) }

/-! A caller that only logs a failed write goes on with the database as it was. -/

def tryUpsertSession (m : SessionMeta) : Db := (db.upsertSession m).getD db

def tryAppendScrollback (sessionId : String) (bytes : List UInt8) : Db :=
  (db.appendScrollback sessionId bytes).getD db

def tryAppendCommandEvents (sessionId : String) (evs : List CommandEvent) : Db :=
  evs.foldl (fun db ev => (db.appendCommandEvent sessionId ev).getD db) db

/-! ## What the writes do to the `session` rows -/

variable {db} {id : String} {m : SessionMeta} {r : SessionRow} {workspaceId : String}

@[simp] theorem row_id : m.row.id = m.id := rfl

@[simp] theorem read_id : r.read.id = r.id := rfl

theorem mem_listSessions : (∃ m ∈ db.listSessions, m.id = id) ↔ (db.sessions.lookup id).isSome := by
  simp only [listSessions, List.mem_map, ← KeyedTable.exists_row]
  constructor
  · rintro ⟨-, ⟨r, hr, rfl⟩, hid⟩
    exact ⟨r, hr, hid⟩
  · rintro ⟨r, hr, hid⟩
    exact ⟨r.read, ⟨r, hr, rfl⟩, hid⟩

@[simp] theorem sessions_tryAppendScrollback (bytes : List UInt8) :
    (db.tryAppendScrollback id bytes).sessions = db.sessions := by
  unfold tryAppendScrollback appendScrollback
  cases db.sessions.lookup id <;> rfl

@[simp] theorem workspaces_tryAppendScrollback (bytes : List UInt8) :
    (db.tryAppendScrollback id bytes).workspaces = db.workspaces := by
  unfold tryAppendScrollback appendScrollback
  cases db.sessions.lookup id <;> rfl

theorem appendCommandEvent_getD (ev : CommandEvent) :
    ((db.appendCommandEvent id ev).getD db).sessions = db.sessions ∧
      ((db.appendCommandEvent id ev).getD db).workspaces = db.workspaces := by
  unfold appendCommandEvent
  cases db.sessions.lookup id <;> exact ⟨rfl, rfl⟩

theorem tryAppendCommandEvents_rows (evs : List CommandEvent) :
    (db.tryAppendCommandEvents id evs).sessions = db.sessions ∧
      (db.tryAppendCommandEvents id evs).workspaces = db.workspaces := by
  unfold tryAppendCommandEvents
  induction evs generalizing db with
  | nil => exact ⟨rfl, rfl⟩
  | cons ev evs ih =>
    obtain ⟨h1, h2⟩ := @appendCommandEvent_getD db id ev
    rw [List.foldl_cons, ← h1, ← h2]
    exact ih

@[simp] theorem sessions_tryAppendCommandEvents (evs : List CommandEvent) :
    (db.tryAppendCommandEvents id evs).sessions = db.sessions := (tryAppendCommandEvents_rows evs).1

@[simp] theorem workspaces_tryAppendCommandEvents (evs : List CommandEvent) :
    (db.tryAppendCommandEvents id evs).workspaces = db.workspaces :=
  (tryAppendCommandEvents_rows evs).2

@[simp] theorem workspaces_tryUpsertSession :
    (db.tryUpsertSession m).workspaces = db.workspaces := by
  unfold tryUpsertSession upsertSession
  split_ifs <;> rfl

/-- A session's row is written only while its workspace has one. -/
theorem lookup_tryUpsertSession : (db.tryUpsertSession m).sessions.lookup id =
    if db.workspaceExists m.workspaceId ∧ id = m.id then some m.row
    else db.sessions.lookup id := by
  unfold tryUpsertSession upsertSession
  by_cases h : db.workspaceExists m.workspaceId <;> by_cases hid : id = m.id <;>
    simp [h, hid, KeyedTable.lookup_upsert]

theorem lookup_deleteSession {sessionId : String} :
    (db.deleteSession sessionId).sessions.lookup id =
      if id = sessionId then none else db.sessions.lookup id :=
  KeyedTable.lookup_erase

theorem workspaceSessionIds_mem {ids : List String}
    (h : db.workspaceSessionIds workspaceId = some ids) : workspaceId ∈ db.workspaces := by
  unfold workspaceSessionIds at h
  split_ifs at h with hw
  exact List.contains_iff_mem.1 hw

theorem mem_workspaceSessionIds {ids : List String}
    (h : db.workspaceSessionIds workspaceId = some ids) :
    id ∈ ids ↔ ∃ r, db.sessions.lookup id = some r ∧ r.workspaceId = workspaceId := by
  unfold workspaceSessionIds at h
  split_ifs at h
  cases h
  simp only [List.mem_map, List.mem_filter, beq_iff_eq, KeyedTable.lookup_eq_some]
  constructor
  · rintro ⟨r, ⟨hr, hw⟩, hid⟩
    exact ⟨r, ⟨hr, hid⟩, hw⟩
  · rintro ⟨r, ⟨hr, hid⟩, hw⟩
    exact ⟨r, ⟨hr, hw⟩, hid⟩

theorem deleteWorkspace_eq_some {db' : Db} (h : db.deleteWorkspace workspaceId = some db') :
    db'.workspaces = db.workspaces.filter (· != workspaceId) ∧
      db'.sessions = db.sessions.keep (·.workspaceId != workspaceId) := by
  obtain ⟨ids, -, rfl⟩ := Option.map_eq_some_iff.1 h
  exact ⟨rfl, rfl⟩

end Db

end BuilderPro
