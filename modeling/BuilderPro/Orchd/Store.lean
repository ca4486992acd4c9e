import Mathlib.Data.List.Sort
import BuilderPro.Lib.Forest
import BuilderPro.Lib.KeyedTable
import BuilderPro.Orchd.Domain

/-!
# The domain store

`persistence.rs`: the tables of `orchd.db` the domain lives in, the rows of a family and the project
they belong to, and the guard every verb on a project's rows starts with.
-/

namespace BuilderPro

structure Store where
  projects : KeyedTable ProjectRow.id
  /-- `project_workspace`, whose `workspace_id` is unique. -/
  workspaces : KeyedTable ProjectWorkspace.workspaceId
  goals : KeyedTable Goal.id
  ideas : KeyedTable Idea.id
  insights : KeyedTable Insight.id
  tasks : KeyedTable DomainTask.id
  rulesets : KeyedTable RuleSet.id
  docs : KeyedTable Doc.id
  workflows : KeyedTable WorkflowRow.id
  nodes : KeyedTable GraphNode.id
  edges : KeyedTable GraphEdge.id

def Store.empty : Store :=
  ⟨.empty, .empty, .empty, .empty, .empty, .empty, .empty, .empty, .empty, .empty, .empty⟩

/-- A family of rows that belong to projects. -/
class ProjectChild (ρ : Type) where
  id : ρ → String
  projectId : ρ → Option String
  table : Store → KeyedTable id
  setTable : Store → KeyedTable id → Store

instance : ProjectChild Goal := ⟨Goal.id, fun g => some g.projectId, Store.goals,
  fun s t => { s with goals := t }⟩

instance : ProjectChild Idea := ⟨Idea.id, Idea.projectId, Store.ideas,
  fun s t => { s with ideas := t }⟩

instance : ProjectChild Insight := ⟨Insight.id, Insight.projectId, Store.insights,
  fun s t => { s with insights := t }⟩

instance : ProjectChild DomainTask := ⟨DomainTask.id, fun t => some t.projectId, Store.tasks,
  fun s t => { s with tasks := t }⟩

instance : ProjectChild RuleSet := ⟨RuleSet.id, RuleSet.projectId, Store.rulesets,
  fun s t => { s with rulesets := t }⟩

instance : ProjectChild Doc := ⟨Doc.id, fun d => some d.projectId, Store.docs,
  fun s t => { s with docs := t }⟩

instance : ProjectChild WorkflowRow := ⟨WorkflowRow.id, WorkflowRow.projectId, Store.workflows,
  fun s t => { s with workflows := t }⟩

instance : ProjectChild GraphNode := ⟨GraphNode.id, fun n => some n.projectId, Store.nodes,
  fun s t => { s with nodes := t }⟩

namespace Store

variable (s : Store)

/-- The rows of a family that belong to a project. -/
def rowsOf (ρ : Type) [ProjectChild ρ] (p : String) : List ρ :=
  (ProjectChild.table s).rows.filter fun x : ρ => ProjectChild.projectId x = some p

/-- `ensure_project_active`. -/
def ensureProjectActive (projectId : String) : Except OrchdPersistError Unit :=
  match s.projects.lookup projectId with
  | none => .error .notFound
  | some p =>
    match p.status with
    | .archived => .error (.invariant "project archived")
    | .active => .ok ()

/-- `ensure_optional_project_active`. -/
def ensureOptionalProjectActive : Option String → Except OrchdPersistError Unit
  | some pid => s.ensureProjectActive pid
  | none => .ok ()

section Rows

variable {ρ : Type} [ProjectChild ρ]

/-- The row of an id, or `NotFound`. -/
def loadRow (id : String) : Except OrchdPersistError ρ :=
  match (ProjectChild.table s).lookup id with
  | some x => .ok x
  | none => .error .notFound

variable {s} in
theorem loadRow_eq_ok {id : String} {x : ρ} :
    s.loadRow id = .ok x ↔ (ProjectChild.table s).lookup id = some x := by
  unfold loadRow
  rcases (ProjectChild.table s).lookup id with _ | y <;> simp

/-- The row of an id, once its project is known to be active. -/
def loadActive (id : String) : Except OrchdPersistError ρ := do
  let x : ρ ← s.loadRow id
  s.ensureOptionalProjectActive (ProjectChild.projectId x)
  return x

/-- Puts a row where the one with its id stands. -/
def replaceRow (x : ρ) : Store := ProjectChild.setTable s ((ProjectChild.table s).replace x)

/-- Deletes the rows of a family that do not meet a condition. -/
def keepRows (r : ρ → Bool) : Store := ProjectChild.setTable s ((ProjectChild.table s).keep r)

/-- The verbs that change a row of an active project. -/
def updateRow (id : String) (f : ρ → ρ) : Except OrchdPersistError (Store × ρ) := do
  let x : ρ ← s.loadActive id
  return (s.replaceRow (f x), f x)

/-- An `INSERT`, and the error of a taken key. -/
def insertRow (x : ρ) (taken : OrchdPersistError) : Except OrchdPersistError Store :=
  match (ProjectChild.table s).insert x with
  | some t => .ok (ProjectChild.setTable s t)
  | none => .error taken

/-- Deletes a row alone. -/
def eraseRow (ρ : Type) [ProjectChild ρ] (id : String) : Store :=
  s.keepRows fun x : ρ => ProjectChild.id x ≠ id

/-- The verbs that delete a row of an active project. -/
def deleteRow (ρ : Type) [ProjectChild ρ] (id : String) : Except OrchdPersistError Store := do
  let _ : ρ ← s.loadActive id
  return s.eraseRow ρ id

end Rows

/-- `load_project`. -/
def loadProject (id : String) : Except OrchdPersistError Project :=
  match s.projects.lookup id with
  | none => .error .notFound
  | some p =>
    let links := s.workspaces.rows.filter fun w => w.projectId = id
    .ok ⟨p, (links.insertionSort fun v w => v.ord ≤ w.ord).map ProjectWorkspace.workspaceId⟩

/-! ### The parent columns -/

def goalParent (id : String) : Option String := (s.goals.lookup id).bind Goal.parentId

def taskParent (id : String) : Option String := (s.tasks.lookup id).bind DomainTask.parentId

/-- `MAX_ANCESTOR_DEPTH`. -/
def maxAncestorDepth : ℕ := 4096

/-- The walk of `ancestor_chain_contains`, with the turns it has left. -/
def ancestorWalk (up : String → Option String) (tooDeep : OrchdPersistError) (target : String) :
    ℕ → Option String → Except OrchdPersistError Bool
  | 0, _ => .error tooDeep
  | _ + 1, none => .ok false
  | n + 1, some cur => if cur = target then .ok true else ancestorWalk up tooDeep target n (up cur)

def ancestorChainContains (startId targetId : String) : Except OrchdPersistError Bool :=
  ancestorWalk s.goalParent
    (.validation ("ancestor chain from " ++ startId ++ " exceeded 4096 (cycle in parent_id?)"))
    targetId maxAncestorDepth (some startId)

def taskAncestorChainContains (startId targetId : String) : Except OrchdPersistError Bool :=
  ancestorWalk s.taskParent
    (.validation ("task ancestor chain from " ++ startId ++ " exceeded 4096 (cycle in parent_id?)"))
    targetId maxAncestorDepth (some startId)

/-- `ON DELETE CASCADE` along a parent column: the row and all below it. -/
def underGoal (id x : String) : Bool := Forest.reaches s.goalParent (s.goals.rows.length + 1) x id

def underTask (id x : String) : Bool := Forest.reaches s.taskParent (s.tasks.rows.length + 1) x id

end Store

end BuilderPro
