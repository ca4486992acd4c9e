import Mathlib.Algebra.Order.Field.Rat
import Mathlib.Tactic.DeriveFintype

/-!
# The domain's rows

The rows of `orchd.db` and the requests' data, with the fields of `orchd-proto`.
-/

namespace BuilderPro

/-- `OrchdPersistError`. -/
inductive OrchdPersistError
  | notFound
  | invariant (message : String)
  | conflict (message : String)
  | validation (message : String)
  | io (message : String)
  | sql (message : String)
  deriving DecidableEq, Repr

/-- An `f64`, with the rounding of its arithmetic left out. -/
inductive F64
  | nan
  | negInfinity
  | finite (q : ℚ)
  | infinity
  deriving DecidableEq, Repr

namespace F64

def isFinite : F64 → Bool
  | finite _ => true
  | _ => false

/-- The order a `REAL` column is sorted in. -/
def le : F64 → F64 → Bool
  | nan, _ => true
  | _, nan => false
  | negInfinity, _ => true
  | _, negInfinity => false
  | finite a, finite b => a ≤ b
  | _, infinity => true
  | infinity, finite _ => false

def add (x : F64) (q : ℚ) : F64 :=
  match x with
  | finite a => finite (a + q)
  | y => y

def isNegative : F64 → Bool
  | negInfinity => true
  | finite a => a < 0
  | _ => false

end F64

/-- A `Path`: its components, with `..` among them. -/
structure FilePath where
  absolute : Bool
  components : List String
  deriving DecidableEq, Repr

namespace FilePath

/-- The path a string names. -/
def parse (s : String) : FilePath where
  absolute := s.toList.head? = some '/'
  components := ((s.toList.splitOn '/').map String.ofList).filter fun c => c ≠ "" && c ≠ "."

def join (p : FilePath) (s : String) : FilePath :=
  let q := parse s
  if q.absolute then q else ⟨p.absolute, p.components ++ q.components⟩

def parent (p : FilePath) : Option FilePath :=
  if p.components = [] then none else some ⟨p.absolute, p.components.dropLast⟩

def startsWith (p root : FilePath) : Bool :=
  p.absolute == root.absolute && root.components.isPrefixOf p.components

/-- Whether a component is `..`. -/
def hasParentDir (p : FilePath) : Bool := p.components.any (· == "..")

/-- `<path>` with `.tmp` appended to its last component. -/
def tmpPathFor (p : FilePath) : FilePath :=
  match p.components.getLast? with
  | some c => ⟨p.absolute, p.components.dropLast ++ [c ++ ".tmp"]⟩
  | none => p.join ".tmp"

end FilePath

inductive ProjectStatus
  | active
  | archived
  deriving DecidableEq, Repr

/-- A `project` row. -/
structure ProjectRow where
  id : String
  name : String
  description : String
  status : ProjectStatus
  createdAt : ℤ
  updatedAt : ℤ
  deriving DecidableEq, Repr

/-- A project row with its workspaces. -/
structure Project extends ProjectRow where
  workspaceIds : List String
  deriving DecidableEq, Repr

/-- A `project_workspace` row. -/
structure ProjectWorkspace where
  projectId : String
  workspaceId : String
  ord : ℤ
  deriving DecidableEq, Repr

inductive GoalKind
  | strategic
  | additional
  deriving DecidableEq, Repr

inductive GoalStatus
  | active
  | achieved
  | dropped
  deriving DecidableEq, Repr

structure Goal where
  id : String
  projectId : String
  parentId : Option String
  kind : GoalKind
  title : String
  body : String
  ord : ℤ
  status : GoalStatus
  metricRefs : List String
  createdAt : ℤ
  updatedAt : ℤ
  deriving DecidableEq, Repr

inductive IdeaLifecycle
  | captured
  | researching
  | specced
  | inDev
  | shipped
  | archived
  deriving DecidableEq, Repr

structure Idea where
  id : String
  projectId : Option String
  title : String
  body : String
  lifecycle : IdeaLifecycle
  createdAt : ℤ
  updatedAt : ℤ
  deriving DecidableEq, Repr

inductive FitVerdict
  | fit
  | noFit
  | unknown
  deriving DecidableEq, Repr

inductive InsightStatus
  | new
  | accepted
  | archived
  deriving DecidableEq, Repr

structure Insight where
  id : String
  projectId : Option String
  source : String
  title : String
  body : String
  fitVerdict : Option FitVerdict
  fitReasoning : String
  status : InsightStatus
  resolutionReasoning : String
  createdAt : ℤ
  updatedAt : ℤ
  deriving DecidableEq, Repr

inductive TaskStatus
  | backlog
  | todo
  | waiting
  | progress
  | testing
  | done
  deriving DecidableEq, Repr

inductive TaskPriority
  | urgent
  | normal
  deriving DecidableEq, Repr

inductive TaskSource
  | idea
  | insight
  | bug
  | plan
  deriving DecidableEq, Repr

structure DomainTask where
  id : String
  projectId : String
  parentId : Option String
  title : String
  body : String
  status : TaskStatus
  priority : TaskPriority
  source : TaskSource
  sourceId : Option String
  tags : List String
  rank : F64
  rankAgent : Option F64
  rankAgentReasoning : String
  createdAt : ℤ
  updatedAt : ℤ
  deriving DecidableEq, Repr

inductive RuleScope
  | global
  | project
  deriving DecidableEq, Repr

inductive RuleFileState
  | ok
  | missing
  | externallyModified
  deriving DecidableEq, Repr

structure SupervisorConfig where
  enabled : Bool
  delegatedClasses : List String
  instruction : String
  customRules : List String
  deriving DecidableEq, Repr

def SupervisorConfig.default : SupervisorConfig := ⟨false, [], "", []⟩

structure PolicyRules where
  spendCapUsd : Option F64
  approvalClasses : List String
  pathAllowlist : List String
  supervisor : SupervisorConfig
  deriving DecidableEq, Repr

/-- What the column's default `'{}'` decodes to. -/
def PolicyRules.default : PolicyRules := ⟨none, [], [], .default⟩

structure RuleSet where
  id : String
  scope : RuleScope
  projectId : Option String
  mdPath : FilePath
  mdHash : String
  policy : PolicyRules
  createdAt : ℤ
  updatedAt : ℤ
  deriving DecidableEq, Repr

structure Doc where
  id : String
  projectId : String
  name : String
  mdPath : FilePath
  mdHash : String
  createdAt : ℤ
  updatedAt : ℤ
  deriving DecidableEq, Repr

inductive WorkflowScope
  | global
  | project
  deriving DecidableEq, Repr

inductive ContextScope
  | inherit
  | handoff
  | project
  | selected
  deriving DecidableEq, Repr

inductive Gate
  | auto
  | manual
  deriving DecidableEq, Repr

structure Stage where
  id : String
  name : String
  prompt : String
  skillIds : List String
  agent : Option String
  contextScope : ContextScope
  outputs : List String
  gate : Gate
  deriving DecidableEq, Repr

/-- A workflow's definition, as its JSON file holds it. -/
structure Workflow where
  id : String
  name : String
  description : String
  scope : WorkflowScope
  projectId : Option String
  defaultAgent : String
  stages : List Stage
  globalSkillIds : List String
  supervisor : SupervisorConfig
  jsonPath : FilePath
  createdAt : ℤ
  updatedAt : ℤ
  deriving DecidableEq, Repr

/-- A `workflow` row: the index of the definition's file. -/
structure WorkflowRow where
  id : String
  scope : WorkflowScope
  projectId : Option String
  name : String
  jsonPath : FilePath
  hash : String
  createdAt : ℤ
  updatedAt : ℤ
  deriving DecidableEq, Repr

inductive GraphNodeKind
  | concept
  | fact
  | artifact
  | decision
  | note
  | entityRef
  deriving DecidableEq, Repr

inductive GraphEntityType
  | goal
  | idea
  | insight
  | task
  deriving DecidableEq, Repr

structure GraphNode where
  id : String
  projectId : String
  kind : GraphNodeKind
  entityType : Option GraphEntityType
  entityId : Option String
  label : String
  body : String
  posX : F64
  posY : F64
  createdAt : ℤ
  updatedAt : ℤ
  deriving DecidableEq, Repr

inductive GraphEdgeKind
  | relates
  | depends
  | derives
  | supports
  | contradicts
  | parent
  deriving DecidableEq, Repr

structure GraphEdge where
  id : String
  sourceNodeId : String
  targetNodeId : String
  kind : GraphEdgeKind
  label : String
  createdAt : ℤ
  deriving DecidableEq, Repr

end BuilderPro
