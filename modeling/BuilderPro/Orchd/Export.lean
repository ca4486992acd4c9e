import BuilderPro.Orchd.RuleFiles
import BuilderPro.Protocol.Framing

/-!
# Exported bundles

`export.rs`: a project's bundle has its rows as they are listed, and the text of its files as it is
on disk; the whole store's has all of them, the global rules and what belongs to no project.
-/

namespace BuilderPro

structure RuleSetBundle where
  rule : RuleSet
  mdContent : Option String
  deriving DecidableEq, Repr

structure DocBundle where
  doc : Doc
  mdContent : Option String
  deriving DecidableEq, Repr

structure ProjectBundle where
  project : Project
  goals : List Goal
  ideas : List Idea
  insights : List Insight
  tasks : List DomainTask
  ruleset : Option RuleSetBundle
  docs : List DocBundle
  graphNodes : List GraphNode
  graphEdges : List GraphEdge
  deriving DecidableEq, Repr

structure AllExportEnvelope where
  bundleFormat : ℕ
  exportedAt : ℤ
  projects : List ProjectBundle
  globalRuleset : Option RuleSetBundle
  orphanIdeas : List Idea
  orphanInsights : List Insight
  deriving DecidableEq, Repr

/-- What an import reads of a whole store's bundle. -/
structure AllImportEnvelope where
  projects : List ProjectBundle
  globalRuleset : Option RuleSetBundle
  orphanIdeas : List Idea
  orphanInsights : List Insight
  deriving DecidableEq, Repr

/-- The two locked shapes, told apart by their keys; a shape that does not deserialize has an
error. -/
inductive BundleBody
  | project (bundle : Except String ProjectBundle)
  | projects (envelope : Except String AllImportEnvelope)
  | neither

/-- A JSON value, as far as an import looks at it. -/
structure BundleValue where
  bundleFormat : Option ℕ
  /-- `{:?}` of what is under `bundleFormat`. -/
  bundleFormatText : String
  body : BundleBody

/-- `serde_json`. -/
structure BundleJson where
  fromStr : String → Except String BundleValue
  toString : AllExportEnvelope → String

namespace Store

variable (s : Store)

/-! ### Lists -/

/-- `ORDER BY created_at, id`. -/
def byCreated {α : Type} (createdAt : α → ℤ) (id : α → String) (x y : α) : Prop :=
  createdAt x < createdAt y ∨ createdAt x = createdAt y ∧ id x ≤ id y

/-- `ORDER BY created_at DESC, id`. -/
def byNewest {α : Type} (createdAt : α → ℤ) (id : α → String) (x y : α) : Prop :=
  createdAt y < createdAt x ∨ createdAt x = createdAt y ∧ id x ≤ id y

/-- `ORDER BY rank, id`. -/
def byRank (x y : DomainTask) : Prop :=
  x.rank ≠ y.rank ∧ x.rank.le y.rank = true ∨ x.rank = y.rank ∧ x.id ≤ y.id

instance {α : Type} (createdAt : α → ℤ) (id : α → String) : DecidableRel (byCreated createdAt id) :=
  fun _ _ => inferInstanceAs (Decidable (_ ∨ _ ∧ _))

instance {α : Type} (createdAt : α → ℤ) (id : α → String) : DecidableRel (byNewest createdAt id) :=
  fun _ _ => inferInstanceAs (Decidable (_ ∨ _ ∧ _))

instance : DecidableRel byRank := fun _ _ => inferInstanceAs (Decidable (_ ∧ _ ∨ _ ∧ _))

def listProjects : List ProjectRow :=
  s.projects.rows.insertionSort (byCreated ProjectRow.createdAt ProjectRow.id)

def listIdeas (projectId : Option String) : List Idea :=
  (s.ideas.rows.filter fun i => projectId = none ∨ i.projectId = projectId).insertionSort
    (byNewest Idea.createdAt Idea.id)

def listInsights (projectId : Option String) : List Insight :=
  (s.insights.rows.filter fun i => projectId = none ∨ i.projectId = projectId).insertionSort
    (byNewest Insight.createdAt Insight.id)

def listTasks (projectId : String) : List DomainTask :=
  (s.rowsOf DomainTask projectId).insertionSort byRank

def listDocs (projectId : String) : List Doc :=
  (s.rowsOf Doc projectId).insertionSort fun d e => d.name ≤ e.name

/-- `printf('%012d', …)`. -/
def printf012d (n : ℤ) : String :=
  let digits := toString n.natAbs
  let sign := if n < 0 then "-" else ""
  sign ++ String.ofList (List.replicate (12 - digits.length - sign.length) '0') ++ digits

/-- The `sort_key` of a goal in the tree under the project's roots, with the links left to climb. -/
def goalSortKey (projectId : String) : ℕ → String → Option String
  | 0, _ => none
  | n + 1, id =>
    match s.goals.lookup id with
    | none => none
    | some g =>
      if g.projectId ≠ projectId then none
      else
        match g.parentId with
        | none => some (printf012d g.ord)
        | some parent =>
          (goalSortKey projectId n parent).map fun key => key ++ "." ++ printf012d g.ord

/-- The goals of the tree, each with its key: a tree has no way up longer than the table. -/
def goalTree (projectId : String) : List (String × Goal) :=
  (s.rowsOf Goal projectId).filterMap fun g =>
    (s.goalSortKey projectId s.goals.rows.length g.id).map (·, g)

def listGoals (projectId : String) : Except OrchdPersistError (List Goal) :=
  match s.projects.lookup projectId with
  | none => .error .notFound
  | some _ => .ok (((s.goalTree projectId).insertionSort fun x y => x.1 ≤ y.1).map (·.2))

def exportProjectGraph (projectId : String) :
    Except OrchdPersistError (List GraphNode × List GraphEdge) :=
  match s.projects.lookup projectId with
  | none => .error .notFound
  | some _ => .ok
    ((s.rowsOf GraphNode projectId).insertionSort (byCreated GraphNode.createdAt GraphNode.id),
      (s.edgesOf projectId).insertionSort (byCreated GraphEdge.createdAt GraphEdge.id))

end Store

namespace Orchd

variable (o : Orchd)

def buildRulesetBundle (scope : RuleScope) (projectId : Option String) :
    Except OrchdPersistError (Option RuleSetBundle) :=
  match loadRulesetByScope o.db scope projectId with
  | .ok rule => .ok (some ⟨rule, o.files.readState rule.mdPath⟩)
  | .error .notFound => .ok none
  | .error e => .error e

def buildProjectBundle (projectId : String) : Except OrchdPersistError ProjectBundle := do
  let project ← o.db.loadProject projectId
  let goals ← o.db.listGoals projectId
  let ideas := o.db.listIdeas (some projectId)
  let insights := o.db.listInsights (some projectId)
  let tasks := o.db.listTasks projectId
  let ruleset ← o.buildRulesetBundle .project (some projectId)
  let docs := (o.db.listDocs projectId).map fun d => ⟨d, o.files.readState d.mdPath⟩
  let (nodes, edges) ← o.db.exportProjectGraph projectId
  return ⟨project, goals, ideas, insights, tasks, ruleset, docs, nodes, edges⟩

/-- `BUNDLE_FORMAT`. -/
def bundleFormat : ℕ := 1

/-- `MAX_FRAME_LEN` less `FRAME_CAP_MARGIN`. -/
def exportCap : ℕ := maxFrameLen - 1024

/-- `serialize_with_frame_cap`. -/
def serializeWithFrameCap (serde : BundleJson) (value : AllExportEnvelope) :
    Except OrchdPersistError String :=
  let json := serde.toString value
  if json.utf8ByteSize > exportCap then .error (.io "export exceeds the 16 MiB frame cap")
  else .ok json

def exportEnvelope (exportedAt : ℤ) : Except OrchdPersistError AllExportEnvelope := do
  let projects ← o.db.listProjects.mapM fun p => o.buildProjectBundle p.id
  let globalRuleset ← o.buildRulesetBundle .global none
  return ⟨bundleFormat, exportedAt, projects, globalRuleset,
    (o.db.listIdeas none).filter fun i => i.projectId = none,
    (o.db.listInsights none).filter fun i => i.projectId = none⟩

def exportAll (serde : BundleJson) (exportedAt : ℤ) : Except OrchdPersistError String := do
  let envelope ← o.exportEnvelope exportedAt
  serializeWithFrameCap serde envelope

end Orchd

end BuilderPro
