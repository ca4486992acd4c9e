import BuilderPro.Orchd.Export
import BuilderPro.Orchd.Projects

/-!
# Importing a bundle

`export.rs` and the `insert_*_raw` functions: the rows of a bundle go in as they are, in one
transaction whose foreign keys are looked at when it commits, and the files are written after it.
-/

namespace BuilderPro

/-- `PendingRulesetWrite`: a file to write once the rows are in. -/
structure PendingRulesetWrite where
  path : FilePath
  content : String
  deriving DecidableEq, Repr

structure ImportCounts where
  projects : ℕ
  goals : ℕ
  ideas : ℕ
  insights : ℕ
  tasks : ℕ
  rulesets : ℕ
  deriving DecidableEq, Repr

structure ImportOutcome where
  counts : ImportCounts
  deferredFileError : Option String
  deriving DecidableEq, Repr

/-- The id and the time a seeded node is given, by the entity it stands for. -/
def SeedDraw := GraphEntityType → String → String × ℤ

namespace Store

variable (s : Store)

/-! ### Raw rows -/

/-- `conflict_or_sql` of a constraint. -/
def alreadyExists (entity id : String) : OrchdPersistError :=
  .conflict (entity ++ " " ++ id ++ " already exists")

def insertProjectRaw (p : Project) : Except OrchdPersistError Store := do
  let t ← s.insertProject p.toProjectRow (alreadyExists "project" p.id)
  insertWorkspaces p.id 0 p.workspaceIds t

def insertGoalRaw (g : Goal) : Except OrchdPersistError Store :=
  s.insertGoal g (alreadyExists "goal" g.id)

def insertIdeaRaw (i : Idea) : Except OrchdPersistError Store :=
  s.insertRow i (alreadyExists "idea" i.id)

def insertInsightRaw (i : Insight) : Except OrchdPersistError Store :=
  s.insertRow i (alreadyExists "insight" i.id)

def insertTaskRaw (t : DomainTask) : Except OrchdPersistError Store :=
  s.insertRow t (alreadyExists "task" t.id)

/-- `insert_ruleset_raw`: the global row, of which there is one, takes over what the bundle's says
and stays the row it is. -/
def insertRulesetRaw (r : RuleSet) : Except OrchdPersistError Store :=
  match r.scope with
  | .global =>
    match s.rulesets.rows.find? fun q => q.scope = .global with
    | some q => .ok (s.replaceRow { q with
        mdPath := r.mdPath, mdHash := r.mdHash, policy := r.policy, updatedAt := r.updatedAt })
    | none => s.insertRow { r with projectId := none } (alreadyExists "ruleset" r.id)
  | .project =>
    -- the table's check: a row in the project scope has a project
    if r.projectId = none then .error (alreadyExists "ruleset" r.id)
    else s.insertProjectRuleset r (alreadyExists "ruleset" r.id)

/-- `insert_doc_raw`: a doc has a name, which is unique in its project. -/
def insertDocRaw (d : Doc) : Except OrchdPersistError Store :=
  if d.name = "" ∨ s.docs.rows.any (fun e => e.projectId == d.projectId && e.name == d.name) then
    .error (alreadyExists "doc" d.id)
  else s.insertRow d (alreadyExists "doc" d.id)

def insertGraphNodeRaw (n : GraphNode) : Except OrchdPersistError Store :=
  s.insertNode n (alreadyExists "graph_node" n.id)

def insertGraphEdgeRaw (e : GraphEdge) : Except OrchdPersistError Store :=
  s.insertEdge e (alreadyExists "graph_edge" e.id)

/-- `seed_entity_ref_if_missing`. -/
def seedEntityRefIfMissing (draw : SeedDraw) (projectId : String) (entityType : GraphEntityType)
    (entityId label : String) : Except OrchdPersistError Store :=
  if s.hasEntityRef (some entityType) (some entityId) then .ok s
  else
    let (id, now) := draw entityType entityId
    s.insertNode ⟨id, projectId, .entityRef, some entityType, some entityId, label, "",
      .finite 0, .finite 0, now, now⟩ (.sql "UNIQUE constraint failed: graph_node")

/-- The deferred foreign keys: every row a row refers to is there. -/
def foreignKeysHold : Bool :=
  let project (id : String) := (s.projects.lookup id).isSome
  s.workspaces.rows.all (fun w => project w.projectId)
    && s.goals.rows.all (fun g =>
      project g.projectId && g.parentId.all fun q => (s.goals.lookup q).isSome)
    && s.ideas.rows.all (fun i => i.projectId.all project)
    && s.insights.rows.all (fun i => i.projectId.all project)
    && s.tasks.rows.all (fun t =>
      project t.projectId && t.parentId.all fun q => (s.tasks.lookup q).isSome)
    && s.rulesets.rows.all (fun r => r.projectId.all project)
    && s.docs.rows.all (fun d => project d.projectId)
    && s.workflows.rows.all (fun w => w.projectId.all project)
    && s.nodes.rows.all (fun n => project n.projectId)
    && s.edges.rows.all (fun e =>
      (s.nodes.lookup e.sourceNodeId).isSome && (s.nodes.lookup e.targetNodeId).isSome)

end Store

/-! ### Paths -/

def FilePath.display (p : FilePath) : String :=
  (if p.absolute then "/" else "") ++ "/".intercalate p.components

/-- `{:?}` of a string, as far as its escapes have a letter. -/
def debugStr (s : String) : String :=
  "\"" ++ (s.toList.foldl (fun t c => t ++
    if c = '"' then "\\\"" else if c = '\\' then "\\\\" else if c = '\n' then "\\n"
    else if c = '\r' then "\\r" else if c = '\t' then "\\t" else if c = '\x00' then "\\0"
    else c.toString) "") ++ "\""

/-- The guard of `validate_project_id_segment` and `validate_doc_name_segment`. -/
def validateSegment (what segment : String) : Except OrchdPersistError Unit :=
  if segment = "" || segment.toList.tails.any (['.', '.'].isPrefixOf ·)
      || segment.toList.contains '/' || segment.toList.contains '\\' then
    .error (.validation (what ++ " is not a plain path segment: " ++ debugStr segment))
  else .ok ()

def validateProjectIdSegment : String → Except OrchdPersistError Unit :=
  validateSegment "ruleset project_id"

def validateDocNameSegment : String → Except OrchdPersistError Unit := validateSegment "doc name"

section Paths

variable (host : Host)

def defaultRulesetMdPath (scope : RuleScope) (projectId : Option String) :
    Except OrchdPersistError FilePath :=
  let rulesDir := host.appSupport.join "rules"
  match scope, projectId with
  | .global, _ => .ok (rulesDir.join "global.md")
  | .project, some pid => do
    validateProjectIdSegment pid
    return rulesDir.join ("project-" ++ pid ++ ".md")
  | .project, none => .error (.validation "project-scope ruleset is missing its project_id")

/-- Where a row's file is written: at the path the row has, if that is plainly under the daemon's
directory. -/
def resolveWritePath (what : String) (mdPath : FilePath)
    (fallback : Except OrchdPersistError FilePath) : Except OrchdPersistError FilePath :=
  if mdPath.hasParentDir then
    .error (.validation (what ++ " md_path escapes app-support (contains '..')"))
  else if mdPath.absolute && mdPath.startsWith host.appSupport then .ok mdPath
  else fallback

def resolveRulesetWritePath (rule : RuleSet) : Except OrchdPersistError FilePath :=
  resolveWritePath host "ruleset" rule.mdPath (defaultRulesetMdPath host rule.scope rule.projectId)

def resolveDocWritePath (doc : Doc) : Except OrchdPersistError FilePath :=
  resolveWritePath host "doc" doc.mdPath do
    validateProjectIdSegment doc.projectId
    validateDocNameSegment doc.name
    return (((host.appSupport.join "rules").join "docs").join doc.projectId).join (doc.name ++ ".md")

/-- The write a row's text asks for, once its directory is there and inside the daemon's. -/
def pendingWrite (what dir : String) (path : FilePath) :
    Option String → Except OrchdPersistError (List PendingRulesetWrite)
  | none => .ok []
  | some content => do
    let parent ← path.parent.elim
      (throw (.validation (what ++ " md_path has no parent directory"))) pure
    (host.createDirAll parent).mapError
      fun e => .io ("failed to create " ++ dir ++ " dir: " ++ e)
    (host.validatePathWithin parent).mapError
      fun e => .validation (what ++ " md_path escapes app-support: " ++ e)
    return [⟨path, content⟩]

end Paths

/-! ### What is validated before a bundle's rows go in -/

/-- The `parent_of` map of a bundle's goals: of two with one id, the last counts. -/
def goalParentOf (goals : List Goal) (id : String) : Option String :=
  (goals.reverse.find? fun g => g.id = id).bind Goal.parentId

/-- The walk up a goal's parent chain, with the turns it has left and the ids it has seen. -/
def walkGoalChain (up : String → Option String) :
    ℕ → List String → Option String → Except OrchdPersistError Unit
  | _, _, none => .ok ()
  | 0, _, some id => .error (.validation ("goal parent chain contains a cycle at " ++ id))
  | n + 1, seen, some id =>
    if seen.contains id then
      .error (.validation ("goal parent chain contains a cycle at " ++ id))
    else walkGoalChain up n (id :: seen) (up id)

/-- A goal of a bundle. The turns are more than the chain can take without an id it has seen. -/
def validateBundleGoal (goals : List Goal) (g : Goal) : Except OrchdPersistError Unit := do
  if g.kind = .additional ∧ g.parentId = none then
    throw (.validation ("goal " ++ g.id ++ " is 'additional' but has no parent (rogue root)"))
  walkGoalChain (goalParentOf goals) (goals.length + 2) [] (some g.id)

def validateBundleTask (t : DomainTask) : Except OrchdPersistError Unit :=
  if t.rank.isFinite then .ok ()
  else .error (.validation
    ("task " ++ t.id ++ " rank must be finite (NaN and ±Infinity are not storable)"))

def validateBundleNode (n : GraphNode) : Except OrchdPersistError Unit :=
  if n.posX.isFinite && n.posY.isFinite then .ok ()
  else .error (.validation
    ("graph node " ++ n.id ++ " position must be finite (NaN and ±Infinity are not storable)"))

def validateProjectBundle (b : ProjectBundle) : Except OrchdPersistError Unit := do
  b.goals.forM (validateBundleGoal b.goals)
  b.tasks.forM validateBundleTask
  b.graphNodes.forM validateBundleNode

namespace Orchd

variable (host : Host) (draw : SeedDraw)

/-! ### Bundles -/

/-- The store and the files to write, while a bundle is being imported. -/
abbrev Importing := Store × List PendingRulesetWrite

def importRuleset (st : Importing) (b : RuleSetBundle) : Except OrchdPersistError Importing := do
  let path ← resolveRulesetWritePath host b.rule
  let pending ← pendingWrite host "ruleset" "rules" path b.mdContent
  let s ← st.1.insertRulesetRaw { b.rule with mdPath := path }
  return (s, st.2 ++ pending)

def importDoc (st : Importing) (b : DocBundle) : Except OrchdPersistError Importing := do
  let path ← resolveDocWritePath host b.doc
  let pending ← pendingWrite host "doc" "docs" path b.mdContent
  let s ← st.1.insertDocRaw { b.doc with mdPath := path }
  return (s, st.2 ++ pending)

def reseedGoal (s : Store) (g : Goal) : Except OrchdPersistError Store :=
  if g.kind = .strategic then s.seedEntityRefIfMissing draw g.projectId .goal g.id g.title
  else .ok s

def reseedInsight (s : Store) (i : Insight) : Except OrchdPersistError Store :=
  match i.status, i.projectId with
  | .accepted, some pid => s.seedEntityRefIfMissing draw pid .insight i.id i.title
  | _, _ => .ok s

def reseedEntityRefs (s : Store) (b : ProjectBundle) : Except OrchdPersistError Store := do
  let s ← b.goals.foldlM (reseedGoal draw) s
  b.insights.foldlM (reseedInsight draw) s

def importOneProject (st : Importing) (b : ProjectBundle) : Except OrchdPersistError Importing := do
  validateProjectBundle b
  let s ← st.1.insertProjectRaw b.project
  let s ← b.goals.foldlM Store.insertGoalRaw s
  let s ← b.ideas.foldlM Store.insertIdeaRaw s
  let s ← b.insights.foldlM Store.insertInsightRaw s
  let s ← b.tasks.foldlM Store.insertTaskRaw s
  let (s, pending) ← b.docs.foldlM (importDoc host) (s, st.2)
  let s ← b.graphNodes.foldlM Store.insertGraphNodeRaw s
  let s ← b.graphEdges.foldlM Store.insertGraphEdgeRaw s
  let (s, pending) ← b.ruleset.elim (pure (s, pending)) (importRuleset host (s, pending))
  let s ← reseedEntityRefs draw s b
  return (s, pending)

/-- What an import has put in, counted as its rows went in. -/
def importCounts (e : AllImportEnvelope) : ImportCounts where
  projects := e.projects.length
  goals := (e.projects.map fun b => b.goals.length).sum
  ideas := (e.projects.map fun b => b.ideas.length).sum + e.orphanIdeas.length
  insights := (e.projects.map fun b => b.insights.length).sum + e.orphanInsights.length
  tasks := (e.projects.map fun b => b.tasks.length).sum
  rulesets := (e.projects.map fun b => b.ruleset.toList.length).sum + e.globalRuleset.toList.length

/-- The rows of an import, and the files it leaves to write, up to its commit. -/
def importRows (s : Store) (e : AllImportEnvelope) : Except OrchdPersistError Importing := do
  let st ← e.projects.foldlM (importOneProject host draw) (s, [])
  let (s, pending) ← e.globalRuleset.elim (pure st) (importRuleset host st)
  let s ← e.orphanIdeas.foldlM Store.insertIdeaRaw s
  let s ← e.orphanInsights.foldlM Store.insertInsightRaw s
  if !s.foreignKeysHold then throw (.sql "FOREIGN KEY constraint failed")
  return (s, pending)

/-- Writes the files an import has left to write: each of them, with the first failure. -/
def writePending (fs : Files) (failure : Option String) :
    List PendingRulesetWrite → Files × Option String
  | [] => (fs, failure)
  | w :: ws =>
    match fs.writeAtomic host w.path w.content with
    | .ok (fs', _) => writePending fs' failure ws
    | .error e => writePending fs (failure <|> some (w.path.display ++ ": " ++ e)) ws

def importProjectBundles (o : Orchd) (e : AllImportEnvelope) :
    Except OrchdPersistError (Orchd × ImportOutcome) := do
  let (s, pending) ← importRows host draw o.db e
  let (files, failure) := writePending host o.files none pending
  return (⟨s, files⟩, ⟨importCounts e, failure⟩)

/-- The bundle a JSON text holds, in the whole store's shape. -/
def parseBundle (serde : BundleJson) (json : String) :
    Except OrchdPersistError AllImportEnvelope := do
  let value ← (serde.fromStr json).mapError fun e => .validation ("invalid import JSON: " ++ e)
  if value.bundleFormat ≠ some bundleFormat then
    throw (.validation ("unsupported bundleFormat (expected 1): " ++ value.bundleFormatText))
  match value.body with
  | .project bundle => do
    let bundle ← bundle.mapError fun e => .validation ("invalid project bundle: " ++ e)
    return ⟨[bundle], none, [], []⟩
  | .projects envelope =>
    envelope.mapError fun e => .validation ("invalid store bundle: " ++ e)
  | .neither =>
    throw (.validation "import bundle has neither a 'project' nor a 'projects' key")

def importBundle (serde : BundleJson) (o : Orchd) (json : String) :
    Except OrchdPersistError (Orchd × ImportOutcome) := do
  let envelope ← parseBundle serde json
  importProjectBundles host draw o envelope

end Orchd

end BuilderPro
