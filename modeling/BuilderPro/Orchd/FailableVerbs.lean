import BuilderPro.Lib.Attempt
import BuilderPro.Orchd.Writes

/-!
# Verbs that may fail

The verbs of rulesets, docs and workflows with every point they can fail at: each statement of
their transaction, its commit, and each step of the file operations between them.  The transaction
is rolled back when a verb fails; the files are not (`FileVerb.call`).
-/

namespace BuilderPro

/-- What fails, and with which message. -/
structure Faults where
  /-- `unchecked_transaction`. -/
  transaction : Option String
  /-- The guard's `SELECT`. -/
  guard : Option String
  /-- The `SELECT` of the row. -/
  lookup : Option String
  /-- The `SELECT` of a new doc's ruleset. -/
  ruleset : Option String
  /-- `to_string_pretty`. -/
  serialize : Option String
  createDirAll : Option String
  /-- The write of the staging file, and what is at its path then. -/
  write : Option (String × OnDisk)
  rename : Option String
  removeFile : Option String
  /-- The `INSERT`, `UPDATE` or `DELETE`. -/
  statement : Option String
  /-- The `SELECT` of the row as written. -/
  reload : Option String
  /-- The policy of the row as written does not decode. -/
  decode : Option String
  commit : Option String

/-- A verb inside its transaction: the store is what the transaction sees. -/
abbrev Verb (α : Type) := Attempt Orchd OrchdPersistError α

namespace Faults

/-- Nothing fails. -/
@[simps]
def nothing : Faults :=
  ⟨none, none, none, none, none, none, none, none, none, none, none, none, none⟩

def sql (fault : Option String) : Verb Unit := .fault (fault.map .sql)

def io (fault : Option String) : Verb Unit := .fault (fault.map .io)

def query {α : Type} (fault : Option String) (x : Store → Except OrchdPersistError α) :
    Verb α := do
  sql fault
  .ask fun o => x o.db

def execute (fault : Option String) (f : Store → Except OrchdPersistError Store) : Verb Unit := do
  let t ← query fault f
  .change fun o => ⟨t, o.files⟩

variable (φ : Faults) (host : Host)

/-- `ensure_optional_project_active`, which asks nothing without a project. -/
def ensureOptionalProjectActive : Option String → Verb Unit
  | none => pure ()
  | some p => query φ.guard fun s => s.ensureProjectActive p

/-! ### Files -/

/-- `std::fs::write` of the staging file. -/
def writeStaged (p : FilePath) (content : String) : Verb Unit := fun o =>
  match φ.write with
  | some (m, left) => (.error (.io m), ⟨o.db, o.files.put p.tmpPathFor left⟩)
  | none => (.ok (), ⟨o.db, o.files.put p.tmpPathFor (.file content)⟩)

/-- `std::fs::rename` of the staging file. -/
def renameStaged (p : FilePath) : Verb Unit := do
  io φ.rename
  .change fun o =>
    ⟨o.db, (o.files.put p.tmpPathFor .missing).put p (o.files p.tmpPathFor)⟩

def writeAtomic (p : FilePath) (content : String) : Verb String := do
  if p.parent.isSome then io φ.createDirAll
  φ.writeStaged p content
  φ.renameStaged p
  return host.sha256Hex content

def removeIfExists (p : FilePath) : Verb Unit := fun o =>
  match o.files p with
  | .missing => (.ok (), o)
  | _ => (do io φ.removeFile; Attempt.change fun o => ⟨o.db, o.files.put p .missing⟩ : Verb Unit) o

/-! ### The verbs -/

/-- `upsert_ruleset` up to the write. -/
def openRuleset (scope : RuleScope) (projectId : Option String) (mdPath : Option FilePath)
    (policy : Option PolicyRules) : Verb (RuleSet × Option PolicyRules) := do
  .ask fun _ => Orchd.validateMdPath host mdPath
  let policy ← .ask fun _ => policy.mapM validatePolicy
  sql φ.transaction
  φ.ensureOptionalProjectActive projectId
  let row ← query φ.lookup fun s => Orchd.loadRulesetByScope s scope projectId
  return (row, policy)

/-- The content a ruleset is given, if it is given one. -/
def writeContent (p : FilePath) : Option String → Verb (Option String)
  | some content => some <$> φ.writeAtomic host p content
  | none => pure none

/-- The statement of `upsert_ruleset`. -/
def storeRuleset (row : RuleSet) (mdPath : FilePath) (newHash : Option String)
    (policy : Option PolicyRules) (now : ℤ) (s : Store) : Except OrchdPersistError Store :=
  .ok (s.replaceRow { row with
    mdPath := mdPath, mdHash := newHash.getD row.mdHash, policy := policy.getD row.policy,
    updatedAt := now })

def upsertRuleset (scope : RuleScope) (projectId mdContent : Option String)
    (mdPath : Option FilePath) (policy : Option PolicyRules) (now : ℤ) : Verb RuleSet := do
  let (row, policy) ← φ.openRuleset host scope projectId mdPath policy
  let effectivePath := mdPath.getD row.mdPath
  let newHash ← φ.writeContent host effectivePath mdContent
  execute φ.statement (storeRuleset row effectivePath newHash policy now)
  let ruleset ← query φ.reload fun s => s.loadRow row.id
  io φ.decode
  sql φ.commit
  return ruleset

/-- The row of a doc that is there, or the path of a new one. -/
inductive DocTarget
  | save (doc : Doc)
  | create (mdPath : FilePath)

def DocTarget.path : DocTarget → FilePath
  | .save doc => doc.mdPath
  | .create mdPath => mdPath

/-- `upsert_doc` up to the write. -/
def openDoc (projectId name : String) : Verb DocTarget := do
  .ask fun _ => validateDocName name
  sql φ.transaction
  query φ.guard fun s => s.ensureProjectActive projectId
  let existing ← query φ.lookup fun s => .ok (Orchd.findDoc s projectId name)
  match existing with
  | some doc => return .save doc
  | none =>
    let ruleset ← query φ.ruleset fun s => Orchd.loadRulesetByScope s .project (some projectId)
    .ask fun _ =>
      match Orchd.projectDocMdPath ruleset.mdPath projectId name with
      | some mdPath => .ok (.create mdPath)
      | none => .error (.io "project ruleset md_path has no parent directory")

/-- The statement of `upsert_doc`. -/
def storeDoc (projectId name id hash : String) (now : ℤ) (target : DocTarget) (s : Store) :
    Except OrchdPersistError Store :=
  match target with
  | .save doc => .ok (s.replaceRow { doc with mdHash := hash, updatedAt := now })
  | .create mdPath => s.insertRow (⟨id, projectId, name, mdPath, hash, now, now⟩ : Doc)
    (.sql "UNIQUE constraint failed: doc.id")

def DocTarget.id (newId : String) : DocTarget → String
  | .save doc => doc.id
  | .create _ => newId

def upsertDoc (projectId name mdContent id : String) (now : ℤ) : Verb Doc := do
  let target ← φ.openDoc projectId name
  let hash ← φ.writeAtomic host target.path mdContent
  execute φ.statement (storeDoc projectId name id hash now target)
  let doc ← query φ.reload fun s => s.loadRow (target.id id)
  sql φ.commit
  return doc

/-- The two deleting verbs up to the removal. -/
def openChild (ρ : Type) [ProjectChild ρ] (id : String) : Verb ρ := do
  sql φ.transaction
  let row : ρ ← query φ.lookup fun s => s.loadRow id
  φ.ensureOptionalProjectActive (ProjectChild.projectId row)
  return row

def deleteDoc (id : String) : Verb Doc := do
  let doc ← φ.openChild Doc id
  φ.removeIfExists doc.mdPath
  execute φ.statement fun s => .ok (s.eraseRow Doc id)
  sql φ.commit
  return doc

/-- The row a `WorkflowUpsert` names: none for an empty id. -/
def existingWorkflow (id : String) : Verb (Option WorkflowRow) :=
  if id = "" then pure none else query φ.lookup fun s => some <$> s.loadRow id

/-- `upsert_workflow` up to the write. -/
def openWorkflow (id : String) (w : WorkflowFields) : Verb (Option WorkflowRow) := do
  .ask fun _ => validateWorkflow w
  sql φ.transaction
  φ.ensureOptionalProjectActive w.effectiveProjectId
  let existing ← φ.existingWorkflow id
  io φ.serialize
  return existing

/-- Removes the file a workflow has moved from. -/
def removeStale (jsonPath : FilePath) : Option WorkflowRow → Verb Unit
  | some old => if old.jsonPath ≠ jsonPath then φ.removeIfExists old.jsonPath else pure ()
  | none => pure ()

def upsertWorkflow (id : String) (w : WorkflowFields) (newId : String) (now : ℤ) :
    Verb WorkflowRow := do
  let existing ← φ.openWorkflow id w
  let wf := Orchd.workflowToWrite host existing (Orchd.workflowId id newId) w now
  let hash ← φ.writeAtomic host wf.jsonPath (host.workflowJson wf)
  φ.removeStale wf.jsonPath existing
  execute φ.statement fun s => (·.1) <$> Orchd.storeWorkflow s
    ⟨wf.id, wf.scope, wf.projectId, wf.name, wf.jsonPath, hash, wf.createdAt, wf.updatedAt⟩
  let row ← query φ.reload fun s => s.loadRow wf.id
  sql φ.commit
  return row

def deleteWorkflow (id : String) : Verb Unit := do
  let row ← φ.openChild WorkflowRow id
  φ.removeIfExists row.jsonPath
  execute φ.statement fun s => .ok (s.eraseRow WorkflowRow id)
  sql φ.commit

end Faults

/-- A verb that changes a row and its file. -/
inductive FileVerb
  | upsertRuleset (scope : RuleScope) (projectId mdContent : Option String)
    (mdPath : Option FilePath) (policy : Option PolicyRules) (now : ℤ)
  | upsertDoc (projectId name mdContent id : String) (now : ℤ)
  | deleteDoc (id : String)
  | upsertWorkflow (id : String) (w : WorkflowFields) (newId : String) (now : ℤ)
  | deleteWorkflow (id : String)

namespace FileVerb

variable (φ : Faults) (host : Host)

def attempt : FileVerb → Verb Unit
  | .upsertRuleset scope projectId mdContent mdPath policy now => do
    let _ ← φ.upsertRuleset host scope projectId mdContent mdPath policy now
  | .upsertDoc projectId name mdContent id now => do
    let _ ← φ.upsertDoc host projectId name mdContent id now
  | .deleteDoc id => do
    let _ ← φ.deleteDoc id
  | .upsertWorkflow id w newId now => do
    let _ ← φ.upsertWorkflow host id w newId now
  | .deleteWorkflow id => φ.deleteWorkflow id

/-- A verb where nothing fails but what it refuses. -/
def run (host : Host) (o : Orchd) : FileVerb → Except OrchdPersistError Orchd
  | .upsertRuleset scope projectId mdContent mdPath policy now =>
    (·.1) <$> o.upsertRuleset host scope projectId mdContent mdPath policy now
  | .upsertDoc projectId name mdContent id now =>
    (·.1) <$> o.upsertDoc host projectId name mdContent id now
  | .deleteDoc id => (·.1) <$> o.deleteDoc host id
  | .upsertWorkflow id w newId now => (·.1) <$> o.upsertWorkflow host id w newId now
  | .deleteWorkflow id => o.deleteWorkflow host id

end FileVerb

/-! ### What a failed verb has done -/

/-- A write goes through. -/
structure Faults.Writes (φ : Faults) (p : FilePath) : Prop where
  dirs : p.parent.isSome → φ.createDirAll = none
  write : φ.write = none
  rename : φ.rename = none

/-- A write that fails has left at the staging path what was there. -/
structure Faults.StagingSpares (φ : Faults) (fs : Files) (p : FilePath) (content : String) :
    Prop where
  write : (p.parent.isSome → φ.createDirAll = none) → ∀ m left, φ.write = some (m, left) →
    fs p.tmpPathFor = left
  rename : (p.parent.isSome → φ.createDirAll = none) → φ.write = none → φ.rename.isSome →
    fs p.tmpPathFor = .file content

/-- A write changes nothing: the content is there, and nothing at the staging path. -/
def Files.Holds (fs : Files) (p : FilePath) (content : String) : Prop :=
  fs p = .file content ∧ fs p.tmpPathFor = .missing

namespace FileVerb

variable (φ : Faults) (host : Host)

/-- A verb with its transaction: the rows are rolled back when it fails, and the files are not. -/
def call (verb : FileVerb) : Verb Unit :=
  .transact (fun o t => ⟨o.db, t.files⟩) (verb.attempt φ host)

/-- A statement, the look at what it has written, or the commit fails. -/
def RowFails : Prop := φ.statement.isSome ∨ φ.reload.isSome ∨ φ.commit.isSome

/-- The write of a workflow's file leaves one where it was before. -/
def Stale (fs : Files) (jsonPath : FilePath) (existing : Option WorkflowRow) : Prop :=
  ∃ old, existing = some old ∧ old.jsonPath ≠ jsonPath ∧ old.jsonPath ≠ jsonPath.tmpPathFor ∧
    fs old.jsonPath ≠ .missing

/-- What a verb has done to the files when it fails changes nothing: its checks fail, or it has
nothing to do to them, or they are left as they were. -/
def Spares (o : Orchd) : FileVerb → Prop
  | .upsertRuleset scope projectId mdContent mdPath policy _ =>
    ∀ r, (φ.openRuleset host scope projectId mdPath policy o).1 = .ok r → ∀ c, mdContent = some c →
      φ.StagingSpares o.files (mdPath.getD r.1.mdPath) c ∧
        (φ.Writes (mdPath.getD r.1.mdPath) → RowFails φ ∨ φ.decode.isSome →
          o.files.Holds (mdPath.getD r.1.mdPath) c)
  | .upsertDoc projectId name mdContent id now =>
    ∀ target, (φ.openDoc projectId name o).1 = .ok target →
      φ.StagingSpares o.files target.path mdContent ∧
        (φ.Writes target.path → RowFails φ ∨ (∃ e, Faults.storeDoc projectId name id
            (host.sha256Hex mdContent) now target o.db = .error e) →
          o.files.Holds target.path mdContent)
  | .deleteDoc id =>
    ∀ doc, (φ.openChild Doc id o).1 = .ok doc → φ.removeFile = none →
      φ.statement.isSome ∨ φ.commit.isSome → o.files doc.mdPath = .missing
  | .upsertWorkflow id w newId now =>
    ∀ existing, (φ.openWorkflow id w o).1 = .ok existing →
      ∀ wf, wf = Orchd.workflowToWrite host existing (Orchd.workflowId id newId) w now →
        φ.StagingSpares o.files wf.jsonPath (host.workflowJson wf) ∧
        (φ.Writes wf.jsonPath →
          (RowFails φ ∨ φ.removeFile.isSome ∧ Stale o.files wf.jsonPath existing →
            o.files.Holds wf.jsonPath (host.workflowJson wf)) ∧
          (φ.removeFile = none → RowFails φ → ∀ old, existing = some old →
            old.jsonPath ≠ wf.jsonPath → o.files old.jsonPath = .missing))
  | .deleteWorkflow id =>
    ∀ row, (φ.openChild WorkflowRow id o).1 = .ok row → φ.removeFile = none →
      φ.statement.isSome ∨ φ.commit.isSome → o.files row.jsonPath = .missing

end FileVerb

end BuilderPro
