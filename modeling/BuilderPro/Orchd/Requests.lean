import BuilderPro.Lib.Runs
import BuilderPro.Orchd.Import
import BuilderPro.Orchd.Items
import BuilderPro.Orchd.RuleFiles

/-!
# The domain requests

`socket_server.rs`: a request is one verb under the store's lock, with the ids and the time the verb
draws.  A refused request leaves the store as it was.
-/

namespace BuilderPro

inductive DomainRequest
  | createProject (name description : String) (workspaceIds : List String) (ids : ProjectIds)
      (now : ℤ)
  | updateProject (id : String) (name description : Option String) (now : ℤ)
  | archiveProject (id : String) (now : ℤ)
  | unarchiveProject (id : String) (now : ℤ)
  | addProjectWorkspace (projectId workspaceId : String)
  | removeProjectWorkspace (projectId workspaceId : String)
  | createGoal (projectId : String) (parentId : Option String) (kind : GoalKind)
      (title body id : String) (now : ℤ)
  | updateGoal (id : String) (title body : Option String) (status : Option GoalStatus)
      (metricRefs : Option (List String)) (now : ℤ)
  | moveGoal (id : String) (newParentId : Option String) (newOrd now : ℤ)
  | deleteGoal (id : String)
  | createIdea (projectId : Option String) (title body id : String) (now : ℤ)
  | updateIdea (id : String) (title body : Option String) (now : ℤ)
  | setIdeaProject (id : String) (projectId : Option String) (now : ℤ)
  | setIdeaLifecycle (id : String) (lifecycle : IdeaLifecycle) (now : ℤ)
  | deleteIdea (id : String)
  | startResearchRun (ideaId : String) (serverExists : Bool) (now : ℤ)
  | createInsight (projectId : Option String) (source title body id : String) (now : ℤ)
  | updateInsight (id : String) (title body : Option String) (now : ℤ)
  | setInsightFitVerdict (id : String) (fitVerdict : Option FitVerdict) (fitReasoning : String)
      (now : ℤ)
  | setInsightStatus (id : String) (status : InsightStatus) (resolutionReasoning : Option String)
      (nodeId : String) (now : ℤ)
  | deleteInsight (id : String)
  | createTask (projectId : String) (parentId : Option String) (title body : String)
      (status : Option TaskStatus) (source : TaskSource) (sourceId : Option String)
      (tags : List String) (priority : Option TaskPriority) (id : String) (now : ℤ)
  | updateTask (id : String) (title body : Option String) (tags : Option (List String)) (now : ℤ)
  | setTaskStatus (id : String) (status : TaskStatus) (now : ℤ)
  | setTaskPriority (id : String) (priority : TaskPriority) (now : ℤ)
  | setTaskRank (id : String) (rank : F64) (now : ℤ)
  | deleteTask (id : String)
  | upsertRuleset (scope : RuleScope) (projectId mdContent : Option String)
      (mdPath : Option FilePath) (policy : Option PolicyRules) (now : ℤ)
  | acknowledgeRuleFile (id : String) (now : ℤ)
  | ensureGlobalRuleset (template id : String) (now : ℤ)
  | upsertDoc (projectId name mdContent id : String) (now : ℤ)
  | deleteDoc (id : String)
  | acknowledgeDocFile (id : String) (now : ℤ)
  | upsertWorkflow (id : String) (fields : WorkflowFields) (newId : String) (now : ℤ)
  | deleteWorkflow (id : String)
  | addNode (projectId : String) (kind : GraphNodeKind) (label body : String) (posX posY : F64)
      (id : String) (now : ℤ)
  | updateNode (id : String) (label body expectedProject : Option String) (now : ℤ)
  | moveNode (id : String) (posX posY : F64) (expectedProject : Option String) (now : ℤ)
  | deleteNode (id : String) (expectedProject : Option String)
  | addEdge (sourceNodeId targetNodeId : String) (kind : GraphEdgeKind) (label id : String)
      (now : ℤ)
  | updateEdge (id : String) (kind : GraphEdgeKind)
  | deleteEdge (id : String)
  /-- What is at a path changes outside the daemon. -/
  | editFile (path : FilePath) (found : OnDisk)

namespace Orchd

variable (host : Host) (o : Orchd)

/-- The reply of a verb on the store alone is left out. -/
def onStore {α : Type} (r : Except OrchdPersistError (Store × α)) :
    Except OrchdPersistError Orchd :=
  (fun x => ⟨x.1, o.files⟩) <$> r

def handle : DomainRequest → Except OrchdPersistError Orchd
  | .createProject name description workspaceIds ids now =>
    o.onStore (o.db.createProject host.appSupport name description workspaceIds ids now)
  | .updateProject id name description now => o.onStore (o.db.updateProject id name description now)
  | .archiveProject id now => o.onStore (o.db.archiveProject id now)
  | .unarchiveProject id now => o.onStore (o.db.unarchiveProject id now)
  | .addProjectWorkspace projectId workspaceId =>
    o.onStore (o.db.addProjectWorkspace projectId workspaceId)
  | .removeProjectWorkspace projectId workspaceId =>
    o.onStore (o.db.removeProjectWorkspace projectId workspaceId)
  | .createGoal projectId parentId kind title body id now =>
    o.onStore (o.db.createGoal projectId parentId kind title body id now)
  | .updateGoal id title body status metricRefs now =>
    o.onStore (o.db.updateGoal id title body status metricRefs now)
  | .moveGoal id newParentId newOrd now => o.onStore (o.db.moveGoal id newParentId newOrd now)
  | .deleteGoal id => (⟨·, o.files⟩) <$> o.db.deleteGoal id
  | .createIdea projectId title body id now =>
    o.onStore (o.db.createIdea projectId title body id now)
  | .updateIdea id title body now => o.onStore (o.db.updateIdea id title body now)
  | .setIdeaProject id projectId now => o.onStore (o.db.setIdeaProject id projectId now)
  | .setIdeaLifecycle id lifecycle now => o.onStore (o.db.setIdeaLifecycle id lifecycle now)
  | .deleteIdea id => (⟨·, o.files⟩) <$> o.db.deleteIdea id
  | .startResearchRun ideaId serverExists now =>
    o.onStore (o.db.startResearchRun ideaId serverExists now)
  | .createInsight projectId source title body id now =>
    o.onStore (o.db.createInsight projectId source title body id now)
  | .updateInsight id title body now => o.onStore (o.db.updateInsight id title body now)
  | .setInsightFitVerdict id fitVerdict fitReasoning now =>
    o.onStore (o.db.setInsightFitVerdict id fitVerdict fitReasoning now)
  | .setInsightStatus id status resolutionReasoning nodeId now =>
    o.onStore (o.db.setInsightStatus id status resolutionReasoning nodeId now)
  | .deleteInsight id => (⟨·, o.files⟩) <$> o.db.deleteInsight id
  | .createTask projectId parentId title body status source sourceId tags priority id now =>
    o.onStore (o.db.createTask projectId parentId title body status source sourceId tags priority
      id now)
  | .updateTask id title body tags now => o.onStore (o.db.updateTask id title body tags now)
  | .setTaskStatus id status now => o.onStore (o.db.setTaskStatus id status now)
  | .setTaskPriority id priority now => o.onStore (o.db.setTaskPriority id priority now)
  | .setTaskRank id rank now => o.onStore (o.db.setTaskRank id rank now)
  | .deleteTask id => (⟨·, o.files⟩) <$> o.db.deleteTask id
  | .upsertRuleset scope projectId mdContent mdPath policy now =>
    (·.1) <$> o.upsertRuleset host scope projectId mdContent mdPath policy now
  | .acknowledgeRuleFile id now => (·.1) <$> o.acknowledgeRuleFile host id now
  | .ensureGlobalRuleset template id now => o.ensureGlobalRuleset host template id now
  | .upsertDoc projectId name mdContent id now =>
    (·.1) <$> o.upsertDoc host projectId name mdContent id now
  | .deleteDoc id => (·.1) <$> o.deleteDoc host id
  | .acknowledgeDocFile id now => (·.1) <$> o.acknowledgeDocFile host id now
  | .upsertWorkflow id fields newId now => (·.1) <$> o.upsertWorkflow host id fields newId now
  | .deleteWorkflow id => o.deleteWorkflow host id
  | .addNode projectId kind label body posX posY id now =>
    o.onStore (o.db.addNode projectId kind label body posX posY id now)
  | .updateNode id label body expectedProject now =>
    o.onStore (o.db.updateNode id label body expectedProject now)
  | .moveNode id posX posY expectedProject now =>
    o.onStore (o.db.moveNode id posX posY expectedProject now)
  | .deleteNode id expectedProject => (⟨·, o.files⟩) <$> o.db.deleteNode id expectedProject
  | .addEdge sourceNodeId targetNodeId kind label id now =>
    o.onStore (o.db.addEdge sourceNodeId targetNodeId kind label id now)
  | .updateEdge id kind => o.onStore (o.db.updateEdge id kind)
  | .deleteEdge id => (⟨·, o.files⟩) <$> o.db.deleteEdge id
  | .editFile path found => .ok ⟨o.db, o.files.put path found⟩

/-- Serves a request: one that is refused changes nothing. -/
def step (r : DomainRequest) : Option Orchd :=
  some ((o.handle host r).toOption.getD o)

/-- The requests that write the domain store: one verb, or the import of a bundle. -/
inductive StoreRequest
  | domain (r : DomainRequest)
  | importBundle (json : String) (draw : SeedDraw)

def serve (serde : BundleJson) (o : Orchd) : StoreRequest → Except OrchdPersistError Orchd
  | .domain r => o.handle host r
  | .importBundle json draw => (·.1) <$> importBundle host draw serde o json

/-- Serves a request of either kind: one that is refused changes nothing. -/
def stepStore (serde : BundleJson) (o : Orchd) (r : StoreRequest) : Option Orchd :=
  some ((serve host serde o r).toOption.getD o)

/-- The daemon of an empty directory. -/
def fresh : Orchd := ⟨.empty, fun _ => .missing⟩

/-- A host on which every file can be written. -/
def plainHost : Host where
  appSupport := ⟨true, ["app"]⟩
  sha256Hex content := content
  workflowJson w := w.name
  isDir _ := true
  createDirAll _ := .ok ()
  validatePathWithin _ := .ok ()
  write _ := .ok ()
  remove _ := .ok ()

end Orchd

end BuilderPro
