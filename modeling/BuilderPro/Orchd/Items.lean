import BuilderPro.Orchd.Graph

/-!
# The verbs of ideas, insights and tasks

`persistence.rs`.  Ideas and insights may belong to no project; a task always belongs to one, and a
subtask to its parent's.
-/

namespace BuilderPro.Store

variable (s : Store)

/-! ### Ideas -/

def createIdea (projectId : Option String) (title body id : String) (now : ℤ) :
    Except OrchdPersistError (Store × Idea) := do
  s.ensureOptionalProjectActive projectId
  let i : Idea := ⟨id, projectId, title, body, .captured, now, now⟩
  let t ← s.insertRow i (.sql "UNIQUE constraint failed: idea.id")
  return (t, i)

def updateIdea (id : String) (title body : Option String) (now : ℤ) :
    Except OrchdPersistError (Store × Idea) :=
  s.updateRow id fun i : Idea =>
    if title.isSome || body.isSome then
      { i with title := title.getD i.title, body := body.getD i.body, updatedAt := now }
    else i

/-- `set_idea_project` guards the project the idea leaves and the one it joins. -/
def setIdeaProject (id : String) (projectId : Option String) (now : ℤ) :
    Except OrchdPersistError (Store × Idea) := do
  let i : Idea ← s.loadActive id
  s.ensureOptionalProjectActive projectId
  let i' := { i with projectId := projectId, updatedAt := now }
  return (s.replaceRow i', i')

def setIdeaLifecycle (id : String) (lifecycle : IdeaLifecycle) (now : ℤ) :
    Except OrchdPersistError (Store × Idea) :=
  s.updateRow id fun i : Idea => { i with lifecycle := lifecycle, updatedAt := now }

/-- `start_research_run`, as far as it writes the idea: a captured one is then being researched. -/
def startResearchRun (ideaId : String) (serverExists : Bool) (now : ℤ) :
    Except OrchdPersistError (Store × Bool) := do
  let i : Idea ← s.loadActive ideaId
  if !serverExists then throw .notFound
  if i.lifecycle = .captured then
    return (s.replaceRow { i with lifecycle := .researching, updatedAt := now }, true)
  else return (s, false)

def deleteIdea (id : String) : Except OrchdPersistError Store := s.deleteRow Idea id

/-! ### Insights -/

def createInsight (projectId : Option String) (source title body id : String) (now : ℤ) :
    Except OrchdPersistError (Store × Insight) := do
  s.ensureOptionalProjectActive projectId
  let i : Insight := ⟨id, projectId, source, title, body, none, "", .new, "", now, now⟩
  let t ← s.insertRow i (.sql "UNIQUE constraint failed: insight.id")
  return (t, i)

def updateInsight (id : String) (title body : Option String) (now : ℤ) :
    Except OrchdPersistError (Store × Insight) :=
  s.updateRow id fun i : Insight =>
    if title.isSome || body.isSome then
      { i with title := title.getD i.title, body := body.getD i.body, updatedAt := now }
    else i

def setInsightFitVerdict (id : String) (fitVerdict : Option FitVerdict) (fitReasoning : String)
    (now : ℤ) : Except OrchdPersistError (Store × Insight) :=
  s.updateRow id fun i : Insight =>
    { i with fitVerdict := fitVerdict, fitReasoning := fitReasoning, updatedAt := now }

/-- `set_insight_status`: an insight accepted in a project gets an entity-ref node there, if it can
have one. -/
def setInsightStatus (id : String) (status : InsightStatus) (resolutionReasoning : Option String)
    (nodeId : String) (now : ℤ) : Except OrchdPersistError (Store × Insight) := do
  let (t, i) ← s.updateRow id fun i : Insight =>
    { i with
      status := status,
      resolutionReasoning := resolutionReasoning.getD i.resolutionReasoning, updatedAt := now }
  match status, i.projectId with
  | .accepted, some pid =>
    match t.addEntityRefNode pid .insight id i.title (.finite 0) (.finite 0) nodeId now with
    | .ok (u, _) => return (u, i)
    | .error _ => return (t, i)
  | _, _ => return (t, i)

def deleteInsight (id : String) : Except OrchdPersistError Store := s.deleteRow Insight id

/-! ### Tasks -/

/-- `MAX(rank)` of a project's tasks. -/
def maxRank (projectId : String) : Option F64 :=
  (s.rowsOf DomainTask projectId).foldl
    (fun m t => match m with
      | some r => if r.le t.rank then some t.rank else some r
      | none => some t.rank) none

/-- The parent a task is put under is in the project, and not below the task. -/
def ensureTaskParent (projectId id : String) : Option String → Except OrchdPersistError Unit
  | none => .ok ()
  | some parent => do
    match s.tasks.lookup parent with
    | none => throw .notFound
    | some p =>
      if p.projectId ≠ projectId then
        throw (.invariant "task parent_id must belong to the same project")
      let below ← s.taskAncestorChainContains parent id
      if below then
        throw (.invariant "cannot create a task under itself or one of its own descendants")

def createTask (projectId : String) (parentId : Option String) (title body : String)
    (status : Option TaskStatus) (source : TaskSource) (sourceId : Option String)
    (tags : List String) (priority : Option TaskPriority) (id : String) (now : ℤ) :
    Except OrchdPersistError (Store × DomainTask) := do
  s.ensureProjectActive projectId
  s.ensureTaskParent projectId id parentId
  let rank := ((s.maxRank projectId).getD (.finite 0)).add 1024
  let t : DomainTask := ⟨id, projectId, parentId, title, body, status.getD .backlog,
    priority.getD .normal, source, sourceId, tags, rank, none, "", now, now⟩
  let u ← s.insertRow t (.sql "UNIQUE constraint failed: task.id")
  return (u, t)

def updateTask (id : String) (title body : Option String) (tags : Option (List String)) (now : ℤ) :
    Except OrchdPersistError (Store × DomainTask) :=
  s.updateRow id fun t : DomainTask =>
    if title.isSome || body.isSome || tags.isSome then
      { t with
        title := title.getD t.title, body := body.getD t.body, tags := tags.getD t.tags,
        updatedAt := now }
    else t

def setTaskStatus (id : String) (status : TaskStatus) (now : ℤ) :
    Except OrchdPersistError (Store × DomainTask) :=
  s.updateRow id fun t : DomainTask => { t with status := status, updatedAt := now }

def setTaskPriority (id : String) (priority : TaskPriority) (now : ℤ) :
    Except OrchdPersistError (Store × DomainTask) :=
  s.updateRow id fun t : DomainTask => { t with priority := priority, updatedAt := now }

def setTaskRank (id : String) (rank : F64) (now : ℤ) :
    Except OrchdPersistError (Store × DomainTask) := do
  if !rank.isFinite then
    throw (.validation "task rank must be finite (NaN and ±Infinity are not storable)")
  s.updateRow id fun t : DomainTask => { t with rank := rank, updatedAt := now }

/-- `delete_task`: the tasks below go with it. -/
def deleteTask (id : String) : Except OrchdPersistError Store := do
  let _ : DomainTask ← s.loadActive id
  return s.keepRows fun x : DomainTask => !s.underTask id x.id

end BuilderPro.Store
