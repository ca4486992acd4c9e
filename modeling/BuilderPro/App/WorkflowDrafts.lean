import BuilderPro.App.RulesetPanel
import BuilderPro.Lib.Results
import BuilderPro.Lib.Runs
import BuilderPro.Orchd.Requests

/-!
# The draft of a workflow

`WorkflowsView.tsx` opens a draft of a workflow, `WorkflowEditor.tsx` and `StageDetail.tsx` edit it,
check it and send it to the daemon.
-/

namespace BuilderPro

/-- The editor's working draft.  An empty `id` makes a new workflow. -/
structure WorkflowDraft where
  id : String
  name : String
  description : String
  scope : WorkflowScope
  projectId : Option String
  defaultAgent : String
  stages : List Stage
  globalSkillIds : List String
  supervisor : SupervisorConfig
  deriving DecidableEq, Repr

/-- `SkillFileState`. -/
inductive SkillFileState
  | present
  | modified
  | missing
  deriving DecidableEq, Repr

/-- A workflow as the daemon lists it. -/
structure WorkflowView where
  workflow : Workflow
  fileState : SkillFileState
  deriving DecidableEq, Repr

/-- `build_workflow`: the row of a workflow with the definition in its file, as `parse` reads it. -/
def buildWorkflow (host : Host) (parse : String → Option Workflow) (files : Files)
    (row : WorkflowRow) : WorkflowView :=
  let gone : WorkflowView := ⟨⟨row.id, row.name, "", row.scope, row.projectId, "", [], [], .default,
    row.jsonPath, row.createdAt, row.updatedAt⟩, .missing⟩
  match files row.jsonPath with
  | .file content =>
    match parse content with
    | some wf =>
      ⟨⟨row.id, row.name, wf.description, row.scope, row.projectId, wf.defaultAgent, wf.stages,
          wf.globalSkillIds, wf.supervisor, row.jsonPath, row.createdAt, row.updatedAt⟩,
        if host.sha256Hex content = row.hash then .present else .modified⟩
    -- a file that does not parse is as good as gone
    | none => gone
  | _ => gone

def blankSupervisor : SupervisorConfig := ⟨false, [], "", []⟩

def blankDraft : WorkflowDraft :=
  ⟨"", "", "", .global, none, "claude-code", [], [], blankSupervisor⟩

def draftFromWorkflow (w : Workflow) : WorkflowDraft :=
  ⟨w.id, w.name, w.description, w.scope, w.projectId, w.defaultAgent, w.stages, w.globalSkillIds,
    w.supervisor⟩

def draftFromDuplicate (w : Workflow) : WorkflowDraft :=
  { draftFromWorkflow w with id := "", name := w.name ++ " (copy)" }

/-- `newStageId`, around the uuid it draws. -/
def newStageId (uuid : String) : String := "stage-" ++ uuid

def newStage (uuid : String) : Stage := ⟨newStageId uuid, "", "", [], none, .inherit, [], .auto⟩

/-! ### What the controls do -/

/-- What the stage detail changes in its stage. -/
inductive StageEdit
  | name (v : String)
  | prompt (v : String)
  | toggleSkill (id : String) (checked : Bool)
  | removeSkill (id : String)
  | gate (g : Gate)
  | agent (value : String)
  | contextScope (c : ContextScope)
  | commitOutput (outputDraft : String)
  | removeOutput (out : String)
  deriving DecidableEq, Repr

/-- A checkbox of a list of ids. -/
def toggleId (ids : List String) (id : String) (checked : Bool) : List String :=
  if checked then ids ++ [id] else ids.filter (· ≠ id)

/-- `Array.from(new Set(…))`. -/
def arrayFromSet (l : List String) : List String := l.eraseDups

namespace StageEdit

def apply (stage : Stage) : StageEdit → Stage
  | name v => { stage with name := v }
  | prompt v => { stage with prompt := v }
  | toggleSkill id checked => { stage with skillIds := toggleId stage.skillIds id checked }
  | removeSkill id => { stage with skillIds := stage.skillIds.filter (· ≠ id) }
  | gate g => { stage with gate := g }
  -- the value `""` stands for inheriting the workflow's agent
  | agent value => { stage with agent := if value = "" then none else some value }
  | contextScope c => { stage with contextScope := c }
  | commitOutput outputDraft =>
    let trimmed := jsTrim outputDraft
    if trimmed = "" ∨ trimmed ∈ stage.outputs then stage
    else { stage with outputs := stage.outputs ++ [trimmed] }
  | removeOutput out => { stage with outputs := stage.outputs.filter (· ≠ out) }

/-- The stage's pickers offer the registry's skills, and the known agents with the one pinned. -/
def offered (skills : List String) (stage : Stage) : StageEdit → Bool
  | toggleSkill id _ => id ∈ skills
  | agent value => value = "" ∨ value ∈ knownAgents ∨ stage.agent = some value
  | _ => true

end StageEdit

def recommendedScopeClasses : List String := ["safe-shell", "file-write"]

/-- What the editor's own controls change in the draft. -/
inductive DraftEdit
  | name (v : String)
  | description (v : String)
  | scope (scope : WorkflowScope)
  | project (value : String)
  | defaultAgent (a : String)
  | toggleGlobalSkill (id : String) (checked : Bool)
  | enable (checked : Bool)
  | addClass (draft : String)
  | removeClass (cls : String)
  | applyRecommendedScope
  | instruction (v : String)
  | addRule (draft : String)
  | removeRule (v : String)
  deriving DecidableEq, Repr

/-- `ChipList`'s `commit`: what is added to a list, if anything. -/
def commitChip (draft : String) : Option String :=
  let trimmed := jsTrim draft
  if trimmed = "" then none else some trimmed

namespace DraftEdit

def apply (d : WorkflowDraft) : DraftEdit → WorkflowDraft
  | name v => { d with name := v }
  | description v => { d with description := v }
  | scope sc =>
    { d with
      scope := sc
      projectId := match sc with
        | .global => none
        | .project => d.projectId }
  | project value => { d with projectId := if value = "" then none else some value }
  | defaultAgent a => { d with defaultAgent := a }
  | toggleGlobalSkill id checked =>
    { d with globalSkillIds := toggleId d.globalSkillIds id checked }
  | enable checked => { d with supervisor.enabled := checked }
  | addClass draft =>
    match commitChip draft with
    | none => d
    | some cls =>
      { d with
        supervisor.delegatedClasses := arrayFromSet (d.supervisor.delegatedClasses ++ [cls]) }
  | removeClass cls =>
    { d with supervisor.delegatedClasses := d.supervisor.delegatedClasses.filter (· ≠ cls) }
  | applyRecommendedScope =>
    { d with
      supervisor.delegatedClasses :=
        arrayFromSet (d.supervisor.delegatedClasses ++ recommendedScopeClasses) }
  | instruction v => { d with supervisor.instruction := v }
  | addRule draft =>
    match commitChip draft with
    | none => d
    | some v =>
      { d with supervisor.customRules := arrayFromSet (d.supervisor.customRules ++ [v]) }
  | removeRule v => { d with supervisor.customRules := d.supervisor.customRules.filter (· ≠ v) }

/-- The project is picked in the project scope, and the CEO is set up while it is enabled.  An id
with no skill in the registry has a button that takes it off. -/
def offered (skills : List String) (d : WorkflowDraft) : DraftEdit → Bool
  | project _ => d.scope = .project
  | defaultAgent a => a ∈ knownAgents
  | toggleGlobalSkill id checked => id ∈ skills ∨ checked = false
  | addClass _ | removeClass _ | applyRecommendedScope | instruction _ | addRule _ | removeRule _ =>
    d.supervisor.enabled
  | _ => true

end DraftEdit

namespace WorkflowDraft

/-- `validateWorkflow` of the editor, with the texts it shows. -/
def validateWorkflow (d : WorkflowDraft) : Option String :=
  if jsTrim d.name = "" then some "name the workflow before saving"
  else if d.scope = .project ∧ (d.projectId = none ∨ d.projectId = some "") then
    some "pick a project for a project-scoped workflow"
  else if d.stages = [] then some "add at least one stage before saving"
  else
    match d.stages.find? fun stage => jsTrim stage.name = "" ∨ jsTrim stage.prompt = "" with
    | some stage =>
      let label := if jsTrim stage.name = "" then "Untitled stage" else stage.name
      some ("stage \"" ++ label ++ "\" needs a name and a prompt")
    | none =>
      if d.supervisor.enabled ∧ d.supervisor.delegatedClasses = [] then
        some "delegate at least one class or disable the CEO"
      else none

/-- What `handleSave` sends, beside the id. -/
def request (d : WorkflowDraft) : WorkflowFields :=
  ⟨d.name, d.description, d.scope, match d.scope with
    | .project => d.projectId
    | .global => none, d.defaultAgent, d.stages, d.globalSkillIds, d.supervisor⟩

end WorkflowDraft

/-! ### The editor -/

/-- The state of a mounted editor.  A save that succeeds unmounts it, so that its run ends there. -/
structure Editor where
  draft : WorkflowDraft
  openStageIndex : Option ℕ
  error : Option String
  /-- The request of the save in flight. -/
  saving : Option WorkflowFields
  /-- The ids of the skills registry, as the store has them. -/
  skills : List String
  deriving DecidableEq, Repr

inductive EditorEvent
  | edit (e : DraftEdit)
  /-- An edit in the detail of the open stage. -/
  | editStage (e : StageEdit)
  | addStage (uuid : String)
  /-- The open detail's button. -/
  | removeStage
  | moveStage (index : ℕ) (up : Bool)
  | toggleDetail (index : ℕ)
  | closeDetail
  | refreshSkills (skills : List String)
  | save
  | saveFailed
  deriving DecidableEq, Repr

/-- `[stages[i], stages[j]] = [stages[j], stages[i]]`. -/
def swapStages (stages : List Stage) (i j : ℕ) : List Stage :=
  match stages[i]?, stages[j]? with
  | some x, some y => (stages.set i y).set j x
  | _, _ => stages

namespace Editor

variable (s : Editor)

/-- The editor as it mounts. -/
def start (d : WorkflowDraft) (skills : List String) : Editor := ⟨d, none, none, none, skills⟩

/-- The stage whose detail is open. -/
def openStage? : Option Stage := s.openStageIndex.bind fun i => s.draft.stages[i]?

def update (d : WorkflowDraft) : Editor := { s with draft := d, error := none }

/-- `moveStage(index, dir)` to the index `target` in range. -/
def moveTo (index target : ℕ) : Editor :=
  { s.update { s.draft with stages := swapStages s.draft.stages index target } with
    openStageIndex := s.openStageIndex.map fun cur =>
      if cur = index then target else if cur = target then index else cur }

def moveStage (index : ℕ) (up : Bool) : Editor :=
  if up then if index = 0 then s else s.moveTo index (index - 1)
  else if s.draft.stages.length ≤ index + 1 then s else s.moveTo index (index + 1)

/-- `handleSave`, up to its request. -/
def handleSave : Editor :=
  match s.draft.validateWorkflow with
  | some e => { s with error := some e }
  | none => { s with error := none, saving := some s.draft.request }

/-- One event, where the screen offers it. -/
def step : EditorEvent → Option Editor
  | .edit e => if e.offered s.skills s.draft then some (s.update (e.apply s.draft)) else none
  | .editStage e =>
    match s.openStageIndex, s.openStage? with
    | some index, some stage =>
      if e.offered s.skills stage then
        some (s.update { s.draft with stages := s.draft.stages.set index (e.apply stage) })
      else none
    | _, _ => none
  | .addStage uuid =>
    some { s.update { s.draft with stages := s.draft.stages ++ [newStage uuid] } with
      openStageIndex := some s.draft.stages.length }
  | .removeStage =>
    match s.openStageIndex with
    | some index =>
      some { s.update { s.draft with stages := s.draft.stages.eraseIdx index } with
        openStageIndex := none }
    | none => none
  | .moveStage index up =>
    if index < s.draft.stages.length then some (s.moveStage index up) else none
  | .toggleDetail index =>
    if index < s.draft.stages.length then
      some { s with openStageIndex := if s.openStageIndex = some index then none else some index }
    else none
  | .closeDetail => if s.openStageIndex.isSome then some { s with openStageIndex := none } else none
  | .refreshSkills skills => some { s with skills := skills }
  | .save => if s.saving = none then some s.handleSave else none
  | .saveFailed => if s.saving.isSome then some { s with saving := none } else none

/-- What the daemon and the browser promise: registered skills have ids, and a uuid is new. -/
def Promised : EditorEvent → Prop
  | .refreshSkills skills => "" ∉ skills
  | .addStage uuid => ∀ stage ∈ s.draft.stages, stage.id ≠ newStageId uuid
  | _ => True

instance : DecidablePred s.Promised := fun a => by
  unfold Promised
  split <;> infer_instance

end Editor

end BuilderPro
