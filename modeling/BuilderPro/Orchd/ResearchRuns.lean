import BuilderPro.Lib.Runs
import BuilderPro.Lib.Slots
import BuilderPro.Orchd.Artifacts
import BuilderPro.Orchd.CallSteps

/-!
# Research runs

`research/mod.rs` over the requests of the daemon: a run's row is written when it is asked for, by
its driver before and after the call, and at a boot for the drivers that a crash has taken.  Any
statement of this path may fail.
-/

namespace BuilderPro

open Results

/-- What a statement that fails leaves its caller with. -/
def sqlFailed : OrchdPersistError := .sql "disk I/O error"

/-- Where `start_run` has a statement that fails. -/
inductive StartFault
  | transaction
  | projectLookup
  deriving DecidableEq, Repr

inductive GateFault
  | gate
  | connect
  deriving DecidableEq, Repr

inductive WriteFault
  | invocation
  | artifact
  deriving DecidableEq, Repr

structure ResearchSys where
  sys : ExtSys
  /-- `mcp_artifact`. -/
  artifacts : KeyedTable McpArtifact.id
  /-- The ids runs have been given; `Uuid::new_v4` gives none twice. -/
  drawn : List String

inductive ResearchAction
  /-- What goes on as it does for every request. -/
  | ext (a : ExtAction)
  | startRun (ideaId serverId toolName argsJson id : String) (fault : Option StartFault)
  | setRunning (i : ℕ) (fails : Bool)
  | authorize (i : ℕ) (auditId connectAuditId : String) (fault : Option GateFault)
  | answer (i : ℕ) (a : CallAnswer) (contentJson : String) (contentText : Option String)
      (fault : Option WriteFault)
  | settle (i : ℕ) (fails : Bool)
  /-- The daemon dies, and boots again. -/
  | crash

/-- What is not one of the steps below. -/
def ExtAction.common : ExtAction → Bool
  | .startRun .. | .setRunning _ | .authorize .. | .answer _ (.call _) | .settle _ => false
  | _ => true

/-- The first phase of `call_tool`, when a statement of one of its gates fails. -/
def callPhaseOneFailing (host : ExtHost) (sys : ExtSys) (c : ToolCall) (auditId : String) :
    GateFault → PhaseOne
  | .gate => refused sys.ext (.persist sqlFailed)
  | .connect =>
    withEnabled sys c.serverId (fun _ => c.projectId) auditId fun server =>
      match sys.ext.authorize host (.toolCall server.id c.toolName c.projectId) auditId
          sys.clock with
      | .error error => refused sys.ext (.persist error)
      | .ok (e, .deny reason) =>
        refused e (if reason = reasonToolDisabled then .toolDisabled else .policyCapExceeded reason)
      | .ok (e, .allow) => refused e (.persist sqlFailed)

/-- A run that `reconcile_interrupted_research_runs` finds under way has been interrupted. -/
def ResearchRunRow.reconcile (now : ℤ) (r : ResearchRunRow) : ResearchRunRow :=
  match r.status with
  | .pending | .running =>
    { r with status := .failed, errorKind := some "interrupted", updatedAt := now }
  | _ => r

theorem ResearchRunRow.reconcile_id (now : ℤ) (r : ResearchRunRow) :
    (r.reconcile now).id = r.id := by
  unfold reconcile
  split <;> rfl

def ExtStore.reconcileInterruptedResearchRuns (e : ExtStore) (now : ℤ) : ExtStore :=
  { e with runs := e.runs.mapRows (ResearchRunRow.reconcile now) (ResearchRunRow.reconcile_id now) }

/-- A request that the daemon has died over. -/
def Task.drop (t : Task) : Task := { t with pc := .over none, guard := none }

namespace ResearchSys

variable (host : ExtHost) (s : ResearchSys)

def runs : KeyedTable ResearchRunRow.id := s.sys.ext.runs

/-- What the foreign keys leave of the artifacts when other tables are written. -/
def withSys (sys : ExtSys) : ResearchSys :=
  { s with sys := sys, artifacts := s.artifacts.keep fun x => x.rooted sys.ext }

def startRun (ideaId serverId toolName argsJson id : String) (fault : Option StartFault) :
    Option ResearchSys :=
  if id ∈ s.drawn then none
  else
    let s' : ResearchSys := { s with drawn := id :: s.drawn }
    match fault with
    | some .transaction => some s'
    | some .projectLookup =>
      match s.sys.ext.startResearchRun ideaId serverId toolName argsJson id s.sys.clock with
      | .error _ => some s'
      -- the row stays, and nothing drives it
      | .ok (e, _) => some (s'.withSys { s.sys with ext := e })
    | none => some (s'.withSys (s.sys.startRun ideaId serverId toolName argsJson id))

/-- The first phase of `run_research`. -/
def setRunning (i : ℕ) (fails : Bool) : Option ResearchSys :=
  if fails then do
    let t ← s.sys.tasks[i]?
    match t.job, t.pc with
    | .research _ _, .start =>
      return s.withSys (s.sys.setTask i { t with pc := .over (some (.persist sqlFailed)) })
    | _, _ => none
  else (s.sys.setRunning i).map s.withSys

def authorize (i : ℕ) (auditId connectAuditId : String) (fault : Option GateFault) :
    Option ResearchSys :=
  match fault with
  | none => (s.sys.authorize host i auditId connectAuditId).map s.withSys
  | some fault => do
    let t ← s.sys.tasks[i]?
    let c ← t.job.toolCall?
    match t.pc with
    | .ready =>
      let r := callPhaseOneFailing host s.sys c auditId fault
      match r.answer with
      | .error error =>
        return s.withSys (({ s.sys with ext := r.ext } : ExtSys).setTask i (t.finish (.error error)))
      | .ok _ => none
    | _ => none

/-- What phase 3 of a call writes: its attempt, and what it has brought. -/
def record (row : McpInvocation) (a : CallAnswer) (content : ArtifactContent)
    (run : Option String) (fault : Option WriteFault) :
    ExtStore × KeyedTable McpArtifact.id × Except OrchdMcpError (String × String) :=
  match if fault = some .invocation then .error sqlFailed else s.sys.ext.insertInvocation row with
  | .error error => (s.sys.ext, s.artifacts, .error (.persist error))
  | .ok e =>
    match a.error with
    | some error => (e, s.artifacts, .error error)
    | none =>
      let x := row.artifact a.artifactId content run s.sys.clock
      match if fault = some .artifact then .error sqlFailed else insertArtifact e s.artifacts x with
      | .error error => (e, s.artifacts, .error (.persist error))
      | .ok t => (e, t, .ok (row.id, x.id))

def answer (i : ℕ) (a : CallAnswer) (contentJson : String) (contentText : Option String)
    (fault : Option WriteFault) : Option ResearchSys := do
  let t ← s.sys.tasks[i]?
  match t.pc with
  | .dialing =>
    let startedAt ← t.startedAt
    let row ← t.job.invocation host startedAt a
    let (e, artifacts, r) := s.record row a (.fit contentJson contentText) t.job.runId? fault
    return { s with
      sys := ({ s.sys with ext := e } : ExtSys).setTask i (t.finish r)
      artifacts := artifacts }
  | _ => none

/-- The last phase of `run_research`: a row that is not written is only logged. -/
def settle (i : ℕ) (fails : Bool) : Option ResearchSys :=
  if fails then do
    let t ← s.sys.tasks[i]?
    match t.job, t.pc with
    | .research _ _, .called r =>
      let error := match r with
        | .ok _ => none
        | .error error => some error
      return s.withSys (s.sys.setTask i { t with pc := .over error })
    | _, _ => none
  else (s.sys.settle i).map s.withSys

/-- A crash takes every request along, and the boot after it reconciles. -/
def crash : ResearchSys :=
  s.withSys { s.sys with
    ext := s.sys.ext.reconcileInterruptedResearchRuns s.sys.clock
    tasks := s.sys.tasks.map Task.drop }

def step (s : ResearchSys) : ResearchAction → Option ResearchSys
  | .ext a => if a.common then (s.sys.step host a).map s.withSys else none
  | .startRun ideaId serverId toolName argsJson id fault =>
    s.startRun ideaId serverId toolName argsJson id fault
  | .setRunning i fails => s.setRunning i fails
  | .authorize i auditId connectAuditId fault => s.authorize host i auditId connectAuditId fault
  | .answer i a contentJson contentText fault => s.answer host i a contentJson contentText fault
  | .settle i fails => s.settle i fails
  | .crash => some s.crash

def fresh : ResearchSys := ⟨.fresh, .empty, []⟩

end ResearchSys

end BuilderPro
