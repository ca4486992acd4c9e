import BuilderPro.Sessiond.Daemon

/-!
# Creating sessions while their workspace is removed

`CreateSession` and `RemoveWorkspace` requests of any number of connections run next to one another
and next to the daemon's other work.  A step of one of the two takes one lock, or reads or writes
the database once, or goes through `Supervisor::kill`.
-/

namespace BuilderPro

/-- A `CreateSession` request; between `create` and `insert` its child is started. -/
inductive CreatePc
  | closing
  | workspaceExists
  | create
  | insert (s : Session)
  | getMeta (id : String)
  | track (m : SessionMeta)
  | persist (m : SessionMeta)
  | done (r : Response)

structure CreateReq where
  workspaceId : String
  pc : CreatePc

/-- `close_session`, one lock after the other. -/
inductive ClosePc
  | kill
  | getMeta
  | detach
  | removeInactive
  | untrack
  | deleteSession
  deriving DecidableEq

/-- The two teardowns of a removal: the victims, and the strays after the deletion. -/
inductive Sweep
  | victims
  | strays
  deriving DecidableEq

/-- A `RemoveWorkspace` request. -/
inductive RemovePc
  | victims
  | beginClosing (ids : List String)
  | readTracked (ids : List String)
  | collect (ids tracked : List String)
  | next (sweep : Sweep) (rest : List String)
  | check (id : String) (rest : List String)
  | close (sweep : Sweep) (id : String) (rest : List String) (pc : ClosePc)
  | untrack (sweep : Sweep) (id : String) (rest : List String)
  | drain (sweep : Sweep)
  | await (sweep : Sweep) (handles : List String)
  | delete
  | readStrays
  | finish (r : Response)
  /-- With the creations in flight at the reply, which are a record of the run, not of the code. -/
  | done (r : Response) (inFlight : List ℕ)
  deriving DecidableEq

structure RemoveReq where
  workspaceId : String
  pc : RemovePc
  deriving DecidableEq

structure RemovalSys where
  deps : ServerDeps
  creates : List CreateReq
  removes : List RemoveReq
  /-- The workspace ids that `Uuid::new_v4` has given; a record of the run, not of the code. -/
  workspaceIds : List String

inductive RemovalAct
  | createWorkspace (workspaceId : String)
  | background (op : ServerDeps.Op)
  | startCreate (workspaceId : String)
  | create (i : ℕ)
  | spawn (i : ℕ) (spec : SessionSpec) (id : String) (now : Int)
  | spawnFails (i : ℕ) (r : Response)
  | endsEarly (i : ℕ) (status : ExitStatus)
  | startRemove (workspaceId : String)
  | remove (j : ℕ) (status : ExitStatus)
  | pick (j : ℕ) (id : String)

/-- The child has started, but not ended. -/
def Session.live (s : Session) : Bool := s.pty.any fun p => !p.waited

def CreatePc.isDone : CreatePc → Bool
  | .done _ => true
  | _ => false

namespace ServerDeps

variable (d : ServerDeps)

def insertSession (s : Session) : ServerDeps :=
  { d with sessions := d.sessions.upsert s, usedIds := d.usedIds.insert s.id }

/-- A step of `close_session`, and what is left of it. -/
def closeStep (id : String) (status : ExitStatus) : ClosePc → ServerDeps × Option ClosePc
  | .kill =>
    match d.kill id status with
    | some d => (d, none)
    | none => (d, some .getMeta)
  | .getMeta =>
    match d.getMeta id with
    | some m => (d, if m.isActive then none else some .detach)
    | none => (d, none)
  | .detach => ({ d with attach := d.attach.filter (·.1 != id) }, some .removeInactive)
  | .removeInactive => (d.removeInactive id, some .untrack)
  | .untrack =>
    ({ d with liveSessions := d.liveSessions.filter (· != id) }, some .deleteSession)
  | .deleteSession => ({ d with db := d.db.deleteSession id }, none)

/-- What is left of `close_session`, when nothing runs next to it. -/
def closeAlone (id : String) (status : ExitStatus) : ℕ → ServerDeps × Option ClosePc → ServerDeps
  | n + 1, (d, some pc) => closeAlone id status n (d.closeStep id status pc)
  | _, (d, _) => d

/-- With nothing next to them, the steps do what the request does. -/
theorem closeAlone_kill (id : String) (status : ExitStatus) :
    closeAlone id status 6 (d, some .kill) = (d.closeSession id status).1 := by
  cases hk : d.kill id status with
  | some e => simp [closeAlone, closeStep, closeSession, hk]
  | none =>
    cases hm : d.getMeta id with
    | none => simp [closeAlone, closeStep, closeSession, hk, hm]
    | some m => by_cases ha : m.isActive <;> simp [closeAlone, closeStep, closeSession, hk, hm, ha]

end ServerDeps

namespace RemovalSys

variable (s : RemovalSys)

def setCreate (i : ℕ) (c : CreateReq) (pc : CreatePc) : RemovalSys :=
  { s with creates := s.creates.set i { c with pc := pc } }

def setRemove (j : ℕ) (r : RemoveReq) (pc : RemovePc) : RemovalSys :=
  { s with removes := s.removes.set j { r with pc := pc } }

def withDeps (d : ServerDeps) : RemovalSys := { s with deps := d }

def createStep (i : ℕ) (c : CreateReq) : Option RemovalSys :=
  match c.pc with
  | .closing =>
    some (s.setCreate i c
      (if s.deps.closingWorkspaces.contains c.workspaceId then .done (noSuchWorkspace c.workspaceId)
        else .workspaceExists))
  | .workspaceExists =>
    some (s.setCreate i c
      (if s.deps.db.workspaceExists c.workspaceId then .create
        else .done (noSuchWorkspace c.workspaceId)))
  | .create => none
  | .insert x => some ((s.withDeps (s.deps.insertSession x)).setCreate i c (.getMeta x.id))
  | .getMeta id =>
    match s.deps.getMeta id with
    | some m => some (s.setCreate i c (.track m))
    | none =>
      some (s.setCreate i c (.done (.error "CreateSessionFailed" ("no such session: " ++ id))))
  | .track m =>
    some ((s.withDeps { s.deps with liveSessions := s.deps.liveSessions.insert m.id }).setCreate i c
      (.persist m))
  | .persist m =>
    some ((s.withDeps { s.deps with db := s.deps.db.tryUpsertSession m }).setCreate i c
      (.done (.session m)))
  | .done _ => none

/-- The ids of the sessions whose children have started, but that are not in the map yet. -/
def starting : List String :=
  s.creates.filterMap fun c => match c.pc with
    | .insert x => some x.id
    | _ => none

/-- `resolve_session_spec` and the child's start; its id is one that was never given. -/
def spawnStep (i : ℕ) (c : CreateReq) (spec : SessionSpec) (id : String) (now : Int) :
    Option RemovalSys :=
  match c.pc with
  | .create =>
    if id ∈ s.deps.usedIds ∨ id ∈ s.starting then none
    else
      let sh := freshShared id c.workspaceId spec.title spec.shell spec.cwd spec.cols spec.rows now
      some (s.setCreate i c (.insert (.withPty sh ⟨OscParser.new, false, false⟩)))
  | _ => none

/-- The child ends before its session is in the map, where the callback finds nothing. -/
def earlyStep (i : ℕ) (c : CreateReq) (status : ExitStatus) : Option RemovalSys :=
  match c.pc with
  | .insert ⟨sh, some p, _⟩ =>
    some (s.setCreate i c
      (.insert (.withPty (sh.recordExit status.record) { p with waited := true })))
  | _ => none

def removeStep (j : ℕ) (r : RemoveReq) (status : ExitStatus) : Option RemovalSys :=
  match r.pc with
  | .victims =>
    match s.deps.db.workspaceSessionIds r.workspaceId with
    | some ids => some (s.setRemove j r (.beginClosing ids))
    | none => some (s.setRemove j r (.done (workspaceNotFound r.workspaceId) []))
  | .beginClosing ids =>
    some ((s.withDeps
      { s.deps with closingWorkspaces := s.deps.closingWorkspaces.insert r.workspaceId }).setRemove
        j r (.readTracked ids))
  | .readTracked ids => some (s.setRemove j r (.collect ids s.deps.liveSessions))
  | .collect ids (id :: tracked) =>
    some (s.setRemove j r (.collect
      (if s.deps.belongs r.workspaceId id then ids.insert id else ids) tracked))
  | .collect ids [] => some (s.setRemove j r (.next .victims ids))
  | .next sweep [] => some (s.setRemove j r (.drain sweep))
  | .next _ (_ :: _) => none
  | .check id rest =>
    some (s.setRemove j r
      (if s.deps.belongs r.workspaceId id then .close .strays id rest .kill
        else .next .strays rest))
  | .close sweep id rest pc =>
    let c := s.deps.closeStep id status pc
    some ((s.withDeps c.1).setRemove j r
      (match c.2 with
        | some pc => .close sweep id rest pc
        | none => .untrack sweep id rest))
  | .untrack sweep id rest =>
    some ((s.withDeps
      { s.deps with liveSessions := s.deps.liveSessions.filter (· != id) }).setRemove
        j r (.next sweep rest))
  | .drain sweep =>
    some ((s.withDeps { s.deps with pendingFinalFlushes := [] }).setRemove j r
      (.await sweep s.deps.pendingFinalFlushes))
  | .await sweep handles =>
    if s.deps.finalFlushes.any fun f => handles.contains f.sessionMeta.id then none
    else
      some (s.setRemove j r
        (match sweep with
          | .victims => .delete
          | .strays => .finish .ack))
  | .delete =>
    match s.deps.db.deleteWorkspace r.workspaceId with
    | some db => some ((s.withDeps { s.deps with db := db }).setRemove j r .readStrays)
    | none => some (s.setRemove j r (.finish (workspaceNotFound r.workspaceId)))
  | .readStrays => some (s.setRemove j r (.next .strays s.deps.liveSessions))
  | .finish reply =>
    some ((s.withDeps { s.deps with
      closingWorkspaces := s.deps.closingWorkspaces.filter (· != r.workspaceId) }).setRemove j r
        (.done reply ((List.range s.creates.length).filter fun i =>
          s.creates[i]?.any fun c => !c.pc.isDone)))
  | .done _ _ => none

/-- A loop of a removal goes through its set in any order. -/
def pickStep (j : ℕ) (r : RemoveReq) (id : String) : Option RemovalSys :=
  match r.pc with
  | .next .victims rest =>
    if id ∈ rest then some (s.setRemove j r (.close .victims id (rest.erase id) .kill)) else none
  | .next .strays rest =>
    if id ∈ rest then some (s.setRemove j r (.check id (rest.erase id))) else none
  | _ => none

def step : RemovalAct → Option RemovalSys
  | .createWorkspace w =>
    if w ∈ s.workspaceIds then none
    else
      some { s with
        deps := { s.deps with db := s.deps.db.upsertWorkspace w }
        workspaceIds := w :: s.workspaceIds }
  | .background op => if op.background then (s.deps.step op).map s.withDeps else none
  | .startCreate w => some { s with creates := s.creates ++ [⟨w, .closing⟩] }
  | .create i => s.creates[i]?.bind (s.createStep i)
  | .spawn i spec id now => s.creates[i]?.bind fun c => s.spawnStep i c spec id now
  | .spawnFails i r => s.creates[i]?.bind fun c =>
    match c.pc with
    | .create => some (s.setCreate i c (.done r))
    | _ => none
  | .endsEarly i status => s.creates[i]?.bind fun c => s.earlyStep i c status
  | .startRemove w => some { s with removes := s.removes ++ [⟨w, .victims⟩] }
  | .remove j status => s.removes[j]?.bind fun r => s.removeStep j r status
  | .pick j id => s.removes[j]?.bind fun r => s.pickStep j r id

/-- A daemon with no such request in flight. -/
def init (d : ServerDeps) : RemovalSys := ⟨d, [], [], d.db.workspaces⟩

def run (as : List RemovalAct) : Option RemovalSys := Runs.run step s as

end RemovalSys

end BuilderPro
