import BuilderPro.Sessiond.Database
import Mathlib.Data.List.Sort

/-!
# The tables of workspaces and their roots

`persistence.rs`: a `workspace` row mirrors its first root, and its roots are `workspace_root` rows
numbered from 0.  Each write is one transaction: a call that fails leaves the tables as they were.
-/

namespace BuilderPro

structure WorkspaceRow where
  id : String
  name : String
  rootPath : String
  deriving DecidableEq, Repr

structure RootRow where
  workspaceId : String
  ord : ℕ
  path : String
  deriving DecidableEq, Repr

/-- `PRIMARY KEY (workspace_id, ord)`. -/
def RootRow.key (r : RootRow) : String × ℕ := (r.workspaceId, r.ord)

/-- A workspace as it is read, with its roots in order. -/
structure WorkspaceView where
  id : String
  name : String
  rootPath : String
  roots : List String
  deriving DecidableEq, Repr

inductive PersistError
  | sql (message : String)
  | lastRoot
  deriving DecidableEq, Repr

structure WorkspaceDb where
  workspaces : KeyedTable WorkspaceRow.id
  roots : KeyedTable RootRow.key
  sessions : KeyedTable SessionRow.id
  scrollback : KeyedTable ScrollbackRow.sessionId
  commandEvents : KeyedTable CommandRow.key

namespace WorkspaceDb

def empty : WorkspaceDb := ⟨.empty, .empty, .empty, .empty, .empty⟩

variable (db : WorkspaceDb)

/-- The tables as the sessions' writes see them: of the workspaces their ids. -/
def toDb : Db :=
  ⟨db.workspaces.rows.map WorkspaceRow.id, db.sessions, db.scrollback, db.commandEvents⟩

/-- What a write to the sessions' tables leaves. -/
def withTables (d : Db) : WorkspaceDb :=
  { db with sessions := d.sessions, scrollback := d.scrollback, commandEvents := d.commandEvents }

/-! ### Reads -/

/-- `SELECT ... FROM workspace_root WHERE workspace_id = ?1 ORDER BY ord`. -/
def rootRows (workspaceId : String) : List RootRow :=
  (db.roots.rows.filter fun r => r.workspaceId = workspaceId).insertionSort fun r r' =>
    r.ord ≤ r'.ord

def rootPaths (workspaceId : String) : List String := (db.rootRows workspaceId).map RootRow.path

/-- The row of `list_workspaces`. -/
def view (w : WorkspaceRow) : WorkspaceView :=
  ⟨w.id, w.name, w.rootPath,
    if db.rootPaths w.id = [] then [w.rootPath] else db.rootPaths w.id⟩

/-- `list_workspaces`, and `find` of an id. -/
def findWorkspace (workspaceId : String) : Option WorkspaceView :=
  (db.workspaces.lookup workspaceId).map db.view

/-! ### Writes -/

/-- An insert into `workspace_root`, which references its workspace. -/
def insertRoot (r : RootRow) : Except PersistError WorkspaceDb :=
  match db.workspaces.lookup r.workspaceId with
  | none => .error (.sql "FOREIGN KEY constraint failed")
  | some _ =>
    match db.roots.insert r with
    | some t => .ok { db with roots := t }
    | none => .error (.sql "UNIQUE constraint failed: workspace_root.workspace_id, ord")

/-- Roots numbered in order. -/
def numbered (workspaceId : String) (n : ℕ) : List String → List RootRow
  | [] => []
  | p :: ps => ⟨workspaceId, n, p⟩ :: numbered workspaceId (n + 1) ps

/-- Delete-then-insert of a workspace's roots. -/
def replaceRoots (workspaceId : String) (paths : List String) : Except PersistError WorkspaceDb :=
  (numbered workspaceId 0 paths).foldlM insertRoot
    { db with roots := db.roots.keep fun r => r.workspaceId ≠ workspaceId }

def upsertWorkspace (id name : String) (roots : List String) : Except PersistError WorkspaceDb :=
  match roots with
  | [] => .error (.sql ("workspace " ++ id ++ " has no roots (roots must be non-empty)"))
  | rootPath :: _ =>
    ({ db with workspaces := db.workspaces.upsert ⟨id, name, rootPath⟩ }).replaceRoots id roots

/-- The transaction of `add_workspace_root`. -/
def appendRoot (workspaceId path : String) : Except PersistError WorkspaceDb :=
  if db.roots.rows.any fun r => r.workspaceId = workspaceId ∧ r.path = path then .ok db
  else
    let maxOrd := ((db.roots.rows.filter fun r => r.workspaceId = workspaceId).map RootRow.ord).max?
    db.insertRoot ⟨workspaceId, (maxOrd.map (· + 1)).getD 0, path⟩

/-- What is answered, and the tables after the call. -/
def addWorkspaceRoot (workspaceId path : String) :
    Except PersistError WorkspaceView × WorkspaceDb :=
  match db.appendRoot workspaceId path with
  | .error e => (.error e, db)
  | .ok db' =>
    match db'.findWorkspace workspaceId with
    | some v => (.ok v, db')
    | none =>
      (.error (.sql ("workspace " ++ workspaceId ++ " not found after add_workspace_root")), db')

/-- The transaction of `remove_workspace_root`, past its checks. -/
def writeRemaining (workspaceId : String) (remaining : List String) :
    Except PersistError WorkspaceDb := do
  let db' ← db.replaceRoots workspaceId remaining
  return { db' with
    workspaces := db'.workspaces.modify workspaceId fun w =>
      { w with rootPath := remaining.headD w.rootPath } }

def removeWorkspaceRoot (workspaceId path : String) :
    Except PersistError WorkspaceView × WorkspaceDb :=
  let existing := db.rootPaths workspaceId
  let remaining := existing.filter (· ≠ path)
  if remaining.length = existing.length then
    match db.findWorkspace workspaceId with
    | some v => (.ok v, db)
    | none => (.error (.sql ("workspace " ++ workspaceId ++ " not found")), db)
  else if remaining = [] then (.error .lastRoot, db)
  else
    match db.writeRemaining workspaceId remaining with
    | .error e => (.error e, db)
    | .ok db' =>
      match db'.findWorkspace workspaceId with
      | some v => (.ok v, db')
      | none =>
        (.error (.sql ("workspace " ++ workspaceId ++ " not found after remove_workspace_root")),
          db')

/-- The ids of a workspace's sessions, `ORDER BY created_at, id`. -/
def sessionIds (workspaceId : String) : List String :=
  ((db.sessions.rows.filter fun r => r.workspaceId = workspaceId).insertionSort fun r r' =>
    r.createdAt < r'.createdAt ∨ r.createdAt = r'.createdAt ∧ r.id ≤ r'.id).map SessionRow.id

def deleteWorkspace (workspaceId : String) : Except PersistError (List String × WorkspaceDb) :=
  match db.workspaces.lookup workspaceId with
  | none => .error (.sql ("workspace " ++ workspaceId ++ " not found"))
  | some _ =>
    let deleted := db.sessionIds workspaceId
    .ok (deleted,
      { commandEvents := db.commandEvents.keep fun r => !deleted.contains r.sessionId
        scrollback := db.scrollback.keep fun r => !deleted.contains r.sessionId
        sessions := db.sessions.keep fun r => r.workspaceId ≠ workspaceId
        roots := db.roots.keep fun r => r.workspaceId ≠ workspaceId
        workspaces := db.workspaces.erase workspaceId })

/-! ### Calls -/

/-- A transaction that is committed, or rolled back. -/
def settle (r : Except PersistError WorkspaceDb) : Except PersistError Unit × WorkspaceDb :=
  match r with
  | .ok db' => (.ok (), db')
  | .error e => (.error e, db)

/-- A write to the sessions' tables. -/
def settleTables (d : Option Db) : Except PersistError Unit × WorkspaceDb :=
  db.settle (match d with
    | some d => .ok (db.withTables d)
    | none => .error (.sql "FOREIGN KEY constraint failed"))

end WorkspaceDb

inductive DbCall
  | upsertWorkspace (id name : String) (roots : List String)
  | addWorkspaceRoot (workspaceId path : String)
  | removeWorkspaceRoot (workspaceId path : String)
  | deleteWorkspace (workspaceId : String)
  | upsertSession (m : SessionMeta)
  | appendScrollback (sessionId : String) (bytes : List UInt8)
  | appendCommandEvent (sessionId : String) (ev : CommandEvent)
  | deleteSession (sessionId : String)

namespace WorkspaceDb

def call (db : WorkspaceDb) : DbCall → Except PersistError Unit × WorkspaceDb
  | .upsertWorkspace id name roots => db.settle (db.upsertWorkspace id name roots)
  | .addWorkspaceRoot workspaceId path =>
    ((db.addWorkspaceRoot workspaceId path).1.map fun _ => (),
      (db.addWorkspaceRoot workspaceId path).2)
  | .removeWorkspaceRoot workspaceId path =>
    ((db.removeWorkspaceRoot workspaceId path).1.map fun _ => (),
      (db.removeWorkspaceRoot workspaceId path).2)
  | .deleteWorkspace workspaceId => db.settle ((·.2) <$> db.deleteWorkspace workspaceId)
  | .upsertSession m => db.settleTables (db.toDb.upsertSession m)
  | .appendScrollback sessionId bytes => db.settleTables (db.toDb.appendScrollback sessionId bytes)
  | .appendCommandEvent sessionId ev => db.settleTables (db.toDb.appendCommandEvent sessionId ev)
  | .deleteSession sessionId => db.settleTables (some (db.toDb.deleteSession sessionId))

/-- The tables after a list of calls. -/
def calls (db : WorkspaceDb) (cs : List DbCall) : WorkspaceDb :=
  cs.foldl (fun db c => (db.call c).2) db

end WorkspaceDb

end BuilderPro
