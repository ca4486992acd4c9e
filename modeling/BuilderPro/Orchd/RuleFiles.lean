import BuilderPro.Orchd.Projects

/-!
# Rule files

`ruleset_files.rs` and the verbs of rulesets, docs and workflows: the rows say where the files are,
and the files are the truth.
-/

namespace BuilderPro

/-- What is at a path. -/
inductive OnDisk
  | missing
  | file (content : String)
  | unreadable (error : String)
  deriving DecidableEq, Repr

/-- The file system, by the path a file is asked for under. -/
def Files := FilePath → OnDisk

/-- What the daemon runs on: its directory, `sha256`, `serde_json`, and what the operating system
answers when a path is written or looked at. -/
structure Host where
  /-- `app_support_dir()`. -/
  appSupport : FilePath
  sha256Hex : String → String
  /-- `serde_json::to_string_pretty`. -/
  workflowJson : Workflow → String
  isDir : FilePath → Bool
  createDirAll : FilePath → Except String Unit
  /-- `validate_path_within(app_support, …)`. -/
  validatePathWithin : FilePath → Except String Unit
  write : FilePath → Except String Unit
  remove : FilePath → Except String Unit

structure Orchd where
  db : Store
  files : Files

namespace Files

variable (fs : Files)

def put (p : FilePath) (x : OnDisk) : Files := fun q => if q = p then x else fs q

/-- `write_atomic`: the content is staged beside its path and renamed over it. -/
def writeAtomic (host : Host) (p : FilePath) (content : String) : Except String (Files × String) :=
  do
    host.write p
    let staged := fs.put p.tmpPathFor (.file content)
    return ((staged.put p.tmpPathFor .missing).put p (staged p.tmpPathFor), host.sha256Hex content)

def maxMdReadBytes : ℕ := 1024 * 1024

/-- The content half of `read_state`. -/
def readState (p : FilePath) : Option String :=
  match fs p with
  | .file content => if content.utf8ByteSize > maxMdReadBytes then none else some content
  | _ => none

def removeIfExists (host : Host) (p : FilePath) : Except String Files :=
  match fs p with
  | .missing => .ok fs
  | _ => do
    host.remove p
    return fs.put p .missing

/-- `read_to_string`, as the two acknowledging verbs map its errors. -/
def readToString (p : FilePath) : Except OrchdPersistError String :=
  match fs p with
  | .file content => .ok content
  | .missing => .error (.invariant "file missing")
  | .unreadable e => .error (.io e)

end Files

/-- The `Io` error of a failed file operation. -/
def ioError {α : Type} (x : Except String α) : Except OrchdPersistError α :=
  x.mapError OrchdPersistError.io

/-! ### What is validated before anything is written -/

def validateSupervisor (c : SupervisorConfig) : Except OrchdPersistError Unit :=
  if c.delegatedClasses.any (· == "") then
    .error (.validation "policy.supervisor.delegatedClasses entries must be non-empty")
  else if c.customRules.any (· == "") then
    .error (.validation "policy.supervisor.customRules entries must be non-empty")
  else if c.enabled && c.delegatedClasses.isEmpty then
    .error (.validation
      "policy.supervisor: an enabled CEO must delegate at least one confirmation class")
  else .ok ()

/-- `validate_policy`: what is stored has been through JSON, which has no infinite numbers. -/
def validatePolicy (policy : PolicyRules) : Except OrchdPersistError PolicyRules := do
  let strict := { policy with spendCapUsd := policy.spendCapUsd.filter F64.isFinite }
  if (strict.spendCapUsd.map F64.isNegative).getD false then
    throw (.validation "policy.spend_cap_usd must be >= 0")
  if strict.approvalClasses.any (· == "") then
    throw (.validation "policy.approval_classes entries must be non-empty")
  if strict.pathAllowlist.any (· == "") then
    throw (.validation "policy.path_allowlist entries must be non-empty")
  validateSupervisor strict.supervisor
  return strict

def docNameMaxLen : ℕ := 64

def validateDocName (name : String) : Except OrchdPersistError Unit :=
  if name = "" then .error (.validation "doc name must not be empty")
  else if name.utf8ByteSize > docNameMaxLen then
    .error (.validation "doc name must be at most 64 characters")
  else if name.toList.head? = some '.' then
    .error (.validation "doc name must not start with '.'")
  else if !name.toList.all fun c => c.isLower || c.isDigit || c == '.' || c == '_' || c == '-' then
    .error (.validation "doc name may only contain a-z, 0-9, '.', '_' and '-'")
  else .ok ()

/-- `KNOWN_AGENTS`. -/
def knownAgents : List String := ["claude-code", "hermes", "opencode", "kilo"]

def knownAgentsText : String := "[\"claude-code\", \"hermes\", \"opencode\", \"kilo\"]"

def workflowNameMaxLen : ℕ := 200

/-- The stages of a workflow, after those with the ids `seen`. -/
def validateStages (seen : List String) : List Stage → Except OrchdPersistError Unit
  | [] => .ok ()
  | stage :: stages =>
    if stage.id = "" then .error (.validation "every stage must have a non-empty id")
    else if seen.contains stage.id then
      .error (.validation ("stage ids must be unique within a workflow (duplicate: \""
        ++ stage.id ++ "\")"))
    else if stage.name = "" then .error (.validation "every stage must have a non-empty name")
    else if stage.prompt = "" then .error (.validation "every stage must have a non-empty prompt")
    else if (stage.agent.map fun a => !knownAgents.contains a).getD false then
      .error (.validation ("stage agent must be one of the known agents " ++ knownAgentsText
        ++ " (or unset to inherit the workflow default)"))
    else if stage.skillIds.any (· == "") then
      .error (.validation "stage skill-id entries must be non-empty")
    else if stage.outputs.any (· == "") then
      .error (.validation "stage output entries must be non-empty")
    else validateStages (stage.id :: seen) stages

/-- The fields of a `WorkflowUpsert`. -/
structure WorkflowFields where
  name : String
  description : String
  scope : WorkflowScope
  projectId : Option String
  defaultAgent : String
  stages : List Stage
  globalSkillIds : List String
  supervisor : SupervisorConfig
  deriving DecidableEq, Repr

/-- The project a workflow's row gets: none in the global scope. -/
def WorkflowFields.effectiveProjectId (w : WorkflowFields) : Option String :=
  match w.scope with
  | .global => none
  | .project => w.projectId

def validateWorkflow (w : WorkflowFields) : Except OrchdPersistError Unit := do
  if w.name = "" then throw (.validation "workflow name must not be empty")
  if w.name.utf8ByteSize > workflowNameMaxLen then
    throw (.validation "workflow name must be at most 200 characters")
  if w.scope = .project ∧ w.projectId.getD "" = "" then
    throw (.validation "a project-scoped workflow requires a projectId")
  if w.defaultAgent = "" ∨ !knownAgents.contains w.defaultAgent then
    throw (.validation
      ("workflow defaultAgent must be one of the known agents " ++ knownAgentsText))
  if w.stages = [] then throw (.validation "a workflow must have at least one stage")
  validateStages [] w.stages
  if w.globalSkillIds.any (· == "") then
    throw (.validation "workflow global-skill-id entries must be non-empty")
  validateSupervisor w.supervisor

namespace Orchd

variable (host : Host) (o : Orchd)

/-! ### Rulesets -/

/-- `load_ruleset_row_by_scope`. -/
def loadRulesetByScope (s : Store) (scope : RuleScope) (projectId : Option String) :
    Except OrchdPersistError RuleSet :=
  match s.rulesets.rows.find? fun r => r.scope = scope ∧ r.projectId = projectId with
  | some r => .ok r
  | none => .error .notFound

/-- A path a ruleset is pointed to is absolute, in a directory that exists. -/
def validateMdPath : Option FilePath → Except OrchdPersistError Unit
  | none => .ok ()
  | some p =>
    if !p.absolute then .error (.validation "ruleset md_path must be absolute")
    else if !(p.parent.map host.isDir).getD false then
      .error (.validation "ruleset md_path's parent directory does not exist")
    else .ok ()

def upsertRuleset (scope : RuleScope) (projectId mdContent : Option String)
    (mdPath : Option FilePath) (policy : Option PolicyRules) (now : ℤ) :
    Except OrchdPersistError (Orchd × RuleSet) := do
  validateMdPath host mdPath
  let policy ← policy.mapM validatePolicy
  o.db.ensureOptionalProjectActive projectId
  let row ← loadRulesetByScope o.db scope projectId
  let path := mdPath.getD row.mdPath
  let (files, hash) ← mdContent.elim (pure (o.files, row.mdHash)) fun content =>
    ioError (o.files.writeAtomic host path content)
  let r := { row with
    mdPath := path, mdHash := hash, policy := policy.getD row.policy, updatedAt := now }
  return (⟨o.db.replaceRow r, files⟩, r)

/-- The verbs that take a file as it is: its hash becomes the row's. -/
def acknowledge {ρ : Type} [ProjectChild ρ] (id : String) (path : ρ → FilePath)
    (setHash : String → ρ → ρ) : Except OrchdPersistError (Orchd × ρ) := do
  let row : ρ ← o.db.loadActive id
  let content ← o.files.readToString (path row)
  let (s, x) ← o.db.updateRow id (setHash (host.sha256Hex content))
  return (⟨s, o.files⟩, x)

def acknowledgeRuleFile (id : String) (now : ℤ) : Except OrchdPersistError (Orchd × RuleSet) :=
  acknowledge host o id RuleSet.mdPath fun h r => { r with mdHash := h, updatedAt := now }

/-- The global file is made from the template where it is missing. -/
def ensureGlobalFile (mdPath : FilePath) (template : String) : Except OrchdPersistError Files :=
  match o.files mdPath with
  | .missing => (·.1) <$> ioError (o.files.writeAtomic host mdPath template)
  | _ => .ok o.files

/-- `INSERT OR IGNORE INTO ruleset` of the global row, of which there is one. -/
def insertGlobalRuleset (s : Store) (r : RuleSet) : Store :=
  if s.rulesets.rows.any fun q => q.scope == .global then s
  else
    match s.rulesets.insert r with
    | some t => { s with rulesets := t }
    | none => s

/-- `ensure_global_ruleset`, at every boot. -/
def ensureGlobalRuleset (template id : String) (now : ℤ) : Except OrchdPersistError Orchd := do
  let mdPath := (host.appSupport.join "rules").join "global.md"
  let files ← o.ensureGlobalFile host mdPath template
  let content ← files.readToString mdPath
  return ⟨insertGlobalRuleset o.db
    ⟨id, .global, none, mdPath, host.sha256Hex content, .default, now, now⟩, files⟩

/-! ### Docs -/

/-- `project_doc_md_path`. -/
def projectDocMdPath (rulesetMdPath : FilePath) (projectId name : String) : Option FilePath :=
  rulesetMdPath.parent.map fun p => ((p.join "docs").join projectId).join (name ++ ".md")

def findDoc (s : Store) (projectId name : String) : Option Doc :=
  s.docs.rows.find? fun d => d.projectId = projectId ∧ d.name = name

def upsertDoc (projectId name mdContent id : String) (now : ℤ) :
    Except OrchdPersistError (Orchd × Doc) := do
  validateDocName name
  o.db.ensureProjectActive projectId
  match findDoc o.db projectId name with
  | some doc =>
    let (files, hash) ← ioError (o.files.writeAtomic host doc.mdPath mdContent)
    let d := { doc with mdHash := hash, updatedAt := now }
    return (⟨o.db.replaceRow d, files⟩, d)
  | none =>
    let ruleset ← loadRulesetByScope o.db .project (some projectId)
    match projectDocMdPath ruleset.mdPath projectId name with
    | none => throw (.io "project ruleset md_path has no parent directory")
    | some mdPath =>
      let (files, hash) ← ioError (o.files.writeAtomic host mdPath mdContent)
      let d : Doc := ⟨id, projectId, name, mdPath, hash, now, now⟩
      let t ← o.db.insertRow d (.sql "UNIQUE constraint failed: doc.id")
      return (⟨t, files⟩, d)

def deleteDoc (id : String) : Except OrchdPersistError (Orchd × Doc) := do
  let doc : Doc ← o.db.loadActive id
  let files ← ioError (o.files.removeIfExists host doc.mdPath)
  return (⟨o.db.eraseRow Doc id, files⟩, doc)

def acknowledgeDocFile (id : String) (now : ℤ) : Except OrchdPersistError (Orchd × Doc) :=
  acknowledge host o id Doc.mdPath fun h d => { d with mdHash := h, updatedAt := now }

/-! ### Workflows -/

/-- `workflow_json_path`. -/
def workflowJsonPath (scope : WorkflowScope) (projectId : Option String) (id : String) :
    FilePath :=
  let segment :=
    match scope with
    | .global => "global"
    | .project => projectId.getD "project"
  (((host.appSupport.join "rules").join "workflows").join segment).join (id ++ ".json")

/-- The row a `WorkflowUpsert` names: none for an empty id. -/
def existingWorkflow (s : Store) (id : String) : Except OrchdPersistError (Option WorkflowRow) :=
  if id = "" then .ok none else some <$> s.loadRow id

/-- Writes a workflow's file, and removes the one it has moved from. -/
def writeWorkflow (existing : Option WorkflowRow) (w : Workflow) :
    Except OrchdPersistError (Files × String) := do
  let (files, hash) ← ioError (o.files.writeAtomic host w.jsonPath (host.workflowJson w))
  match existing with
  | none => return (files, hash)
  | some old =>
    if old.jsonPath = w.jsonPath then return (files, hash)
    else return (← ioError (files.removeIfExists host old.jsonPath), hash)

/-- `INSERT … ON CONFLICT(id) DO UPDATE`, which keeps `created_at`. -/
def storeWorkflow (s : Store) (row : WorkflowRow) : Except OrchdPersistError (Store × WorkflowRow) :=
  match s.workflows.lookup row.id with
  | some old =>
    let row := { row with createdAt := old.createdAt }
    .ok (s.replaceRow row, row)
  | none => (·, row) <$> s.insertRow row (.sql "UNIQUE constraint failed: workflow.id")

/-- The id of the row a `WorkflowUpsert` writes: an empty id makes a new workflow. -/
def workflowId (id newId : String) : String := if id = "" then newId else id

/-- The definition a `WorkflowUpsert` writes to its file. -/
def workflowToWrite (existing : Option WorkflowRow) (id : String) (w : WorkflowFields)
    (now : ℤ) : Workflow :=
  ⟨id, w.name, w.description, w.scope, w.effectiveProjectId, w.defaultAgent, w.stages,
    w.globalSkillIds, w.supervisor, workflowJsonPath host w.scope w.effectiveProjectId id,
    (existing.map WorkflowRow.createdAt).getD now, now⟩

def upsertWorkflow (id : String) (w : WorkflowFields) (newId : String) (now : ℤ) :
    Except OrchdPersistError (Orchd × WorkflowRow) := do
  validateWorkflow w
  -- in the project scope there is a project, as validated
  o.db.ensureOptionalProjectActive w.effectiveProjectId
  let existing ← existingWorkflow o.db id
  let wf := workflowToWrite host existing (workflowId id newId) w now
  let (files, hash) ← o.writeWorkflow host existing wf
  let (t, row) ← storeWorkflow o.db
    ⟨wf.id, wf.scope, wf.projectId, wf.name, wf.jsonPath, hash, wf.createdAt, wf.updatedAt⟩
  return (⟨t, files⟩, row)

def deleteWorkflow (id : String) : Except OrchdPersistError Orchd := do
  let row : WorkflowRow ← o.db.loadActive id
  let files ← ioError (o.files.removeIfExists host row.jsonPath)
  return ⟨o.db.eraseRow WorkflowRow id, files⟩

end Orchd

end BuilderPro
