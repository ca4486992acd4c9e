import BuilderPro.Orchd.Graph

/-!
# The verbs of projects and goals

`persistence.rs`.  A project is made with its strategic goal, which is the only goal without a
parent and can be neither moved nor deleted.
-/

namespace BuilderPro

/-- `project_ruleset_md_path`. -/
def projectRulesetMdPath (appSupport : FilePath) (projectId : String) : FilePath :=
  (appSupport.join "rules").join ("project-" ++ projectId ++ ".md")

def strategicGoalTitle : String := "Strategic goal"

/-- The ids `create_project` draws. -/
structure ProjectIds where
  project : String
  goal : String
  node : String
  ruleset : String
  deriving DecidableEq, Repr

namespace Store

variable (s : Store)

/-! ### Projects -/

/-- The `project_workspace` rows of a list, with their places as `ord`. -/
def insertWorkspaces (projectId : String) (ord : ℤ) :
    List String → Store → Except OrchdPersistError Store
  | [], s => .ok s
  | w :: ws, s =>
    match s.workspaces.insert ⟨projectId, w, ord⟩ with
    | none => .error (.conflict ("workspace " ++ w ++ " is already linked to a project"))
    | some t => insertWorkspaces projectId (ord + 1) ws { s with workspaces := t }

/-- `INSERT INTO project`. -/
def insertProject (p : ProjectRow) (taken : OrchdPersistError) : Except OrchdPersistError Store :=
  match s.projects.insert p with
  | some t => .ok { s with projects := t }
  | none => .error taken

/-- Whether a project has its strategic goal. -/
def hasStrategicGoal (projectId : String) : Bool :=
  s.goals.rows.any fun g => g.projectId == projectId && g.kind == .strategic

/-- `INSERT INTO goal`, with its index `goal_one_strategic_per_project`. -/
def insertGoal (g : Goal) (taken : OrchdPersistError) : Except OrchdPersistError Store :=
  if g.kind == .strategic && s.hasStrategicGoal g.projectId then .error taken
  else s.insertRow g taken

/-- `INSERT INTO ruleset` of a project's row, whose `project_id` is unique. -/
def insertProjectRuleset (r : RuleSet) (taken : OrchdPersistError) :
    Except OrchdPersistError Store :=
  if s.rulesets.rows.any (fun q => q.projectId == r.projectId) then .error taken
  else s.insertRow r taken

def createProject (appSupport : FilePath) (name description : String) (workspaceIds : List String)
    (ids : ProjectIds) (now : ℤ) : Except OrchdPersistError (Store × Project) := do
  if workspaceIds = [] then
    throw (.invariant "project requires at least one workspace_id")
  let t ← s.insertProject ⟨ids.project, name, description, .active, now, now⟩
    (.sql "UNIQUE constraint failed: project.id")
  let t ← insertWorkspaces ids.project 0 workspaceIds t
  let t ← t.insertGoal ⟨ids.goal, ids.project, none, .strategic, strategicGoalTitle, "", 0,
    .active, [], now, now⟩ (.sql "UNIQUE constraint failed: goal")
  let t ← t.seedStrategicEntityRef ids.project ids.goal strategicGoalTitle ids.node now
  let t ← t.insertProjectRuleset ⟨ids.ruleset, .project, some ids.project,
    projectRulesetMdPath appSupport ids.project, "", .default, now, now⟩
    (.sql "UNIQUE constraint failed: ruleset")
  let p ← t.loadProject ids.project
  return (t, p)

/-- Changes a project's row. -/
def setProject (id : String) (f : ProjectRow → ProjectRow) : Store :=
  { s with projects := s.projects.modify id f }

def updateProject (id : String) (name description : Option String) (now : ℤ) :
    Except OrchdPersistError (Store × Project) := do
  s.ensureProjectActive id
  let t := s.setProject id fun p =>
    if name.isSome || description.isSome then
      { p with
        name := name.getD p.name, description := description.getD p.description, updatedAt := now }
    else p
  let p ← t.loadProject id
  return (t, p)

def archiveProject (id : String) (now : ℤ) : Except OrchdPersistError (Store × Project) := do
  s.ensureProjectActive id
  let t := s.setProject id fun p => { p with status := .archived, updatedAt := now }
  let p ← t.loadProject id
  return (t, p)

def unarchiveProject (id : String) (now : ℤ) : Except OrchdPersistError (Store × Project) := do
  match s.projects.lookup id with
  | none => throw .notFound
  | some p =>
    if p.status ≠ .archived then throw (.invariant "project is not archived")
    let t := s.setProject id fun p => { p with status := .active, updatedAt := now }
    let p ← t.loadProject id
    return (t, p)

def addProjectWorkspace (projectId workspaceId : String) :
    Except OrchdPersistError (Store × Project) := do
  s.ensureProjectActive projectId
  let ords := (s.workspaces.rows.filter fun w => w.projectId = projectId).map ProjectWorkspace.ord
  let t ← insertWorkspaces projectId ((ords.max?.map (· + 1)).getD 0) [workspaceId] s
  let p ← t.loadProject projectId
  return (t, p)

def removeProjectWorkspace (projectId workspaceId : String) :
    Except OrchdPersistError (Store × Project) := do
  s.ensureProjectActive projectId
  let links := s.workspaces.rows.filter fun w => w.projectId = projectId
  if links.any (fun w => w.workspaceId == workspaceId) && links.length ≤ 1 then
    throw (.invariant "cannot remove the project's last workspace link")
  let t := { s with
    workspaces := s.workspaces.keep fun w =>
      !(w.projectId == projectId && w.workspaceId == workspaceId) }
  let p ← t.loadProject projectId
  return (t, p)

/-! ### Goals -/

/-- `max(ord) + 1` among the goals under one parent. -/
def nextGoalOrd (projectId : String) (parentId : Option String) : ℤ :=
  let siblings := s.goals.rows.filter fun g => g.projectId = projectId ∧ g.parentId = parentId
  ((siblings.map Goal.ord).max?.map (· + 1)).getD 0

/-- The strategic goal is the only one without a parent. -/
def ensureGoalKind (kind : GoalKind) (parentId : Option String) : Except OrchdPersistError Unit :=
  match kind, parentId with
  | .additional, none => .error (.invariant "additional goal requires a parent")
  | .strategic, some _ =>
    .error (.invariant "strategic goal must be a root (parent_id must be null)")
  | _, _ => .ok ()

/-- The parent a goal is put under is in the project. -/
def ensureGoalParent (projectId message : String) : Option String → Except OrchdPersistError Unit
  | none => .ok ()
  | some parent =>
    match s.goals.lookup parent with
    | none => .error .notFound
    | some g => if g.projectId ≠ projectId then .error (.invariant message) else .ok ()

def createGoal (projectId : String) (parentId : Option String) (kind : GoalKind)
    (title body : String) (id : String) (now : ℤ) : Except OrchdPersistError (Store × Goal) := do
  s.ensureProjectActive projectId
  ensureGoalKind kind parentId
  s.ensureGoalParent projectId "goal parent_id must belong to the same project" parentId
  if kind == .strategic && s.hasStrategicGoal projectId then
    throw (.invariant "project already has a strategic goal")
  let g : Goal := ⟨id, projectId, parentId, kind, title, body, s.nextGoalOrd projectId parentId,
    .active, [], now, now⟩
  let t ← s.insertGoal g (.sql "UNIQUE constraint failed: goal.id")
  return (t, g)

def updateGoal (id : String) (title body : Option String) (status : Option GoalStatus)
    (metricRefs : Option (List String)) (now : ℤ) : Except OrchdPersistError (Store × Goal) :=
  s.updateRow id fun g : Goal =>
    if title.isSome || body.isSome || status.isSome || metricRefs.isSome then
      { g with
        title := title.getD g.title, body := body.getD g.body, status := status.getD g.status,
        metricRefs := metricRefs.getD g.metricRefs, updatedAt := now }
    else g

def moveGoal (id : String) (newParentId : Option String) (newOrd : ℤ) (now : ℤ) :
    Except OrchdPersistError (Store × Goal) := do
  if newOrd < 0 then throw (.invariant "new_ord must be non-negative")
  let g : Goal ← s.loadActive id
  if g.kind = .strategic then throw (.invariant "the strategic root goal cannot be moved")
  let newParent ← newParentId.elim (throw (.invariant "additional goal requires a parent")) pure
  s.ensureGoalParent g.projectId "new_parent_id must belong to the same project" (some newParent)
  let below ← s.ancestorChainContains newParent id
  if below then
    throw (.invariant "cannot move a goal under itself or one of its own descendants")
  let g' := { g with parentId := some newParent, ord := newOrd, updatedAt := now }
  return (s.replaceRow g', g')

/-- `delete_goal`: the goals below go with it. -/
def deleteGoal (id : String) : Except OrchdPersistError Store := do
  let g : Goal ← s.loadActive id
  if g.kind = .strategic then throw (.invariant "the strategic root goal cannot be deleted")
  return s.keepRows fun x : Goal => !s.underGoal id x.id

end Store

end BuilderPro
