import BuilderPro.Orchd.Store

/-!
# The knowledge graph's verbs

`graph.rs`: nodes belong to a project, edges to their two ends, which may lie in two projects.
Deleting a node deletes the edges that end in it.
-/

namespace BuilderPro.Store

variable (s : Store)

/-! ### Constraints of the tables -/

/-- The index `graph_node_one_per_entity`. -/
def hasEntityRef (entityType : Option GraphEntityType) (entityId : Option String) : Bool :=
  s.nodes.rows.any fun n =>
    n.kind == .entityRef && n.entityType == entityType && n.entityId == entityId

/-- `INSERT INTO graph_node`: an entity-ref node, and no other, names an entity, and each entity
has one. -/
def insertNode (n : GraphNode) (taken : OrchdPersistError) : Except OrchdPersistError Store :=
  if (n.kind == .entityRef) != (n.entityType.isSome && n.entityId.isSome) then .error taken
  else if n.kind == .entityRef && s.hasEntityRef n.entityType n.entityId then .error taken
  else s.insertRow n taken

/-- The index `graph_edge_uniq`, but for the edge `id`. -/
def hasEdge (id source target : String) (kind : GraphEdgeKind) : Bool :=
  s.edges.rows.any fun e =>
    e.id != id && e.sourceNodeId == source && e.targetNodeId == target && e.kind == kind

/-- `INSERT INTO graph_edge`: no self-loop, and one edge of a kind between two nodes. -/
def insertEdge (e : GraphEdge) (taken : OrchdPersistError) : Except OrchdPersistError Store :=
  if e.sourceNodeId = e.targetNodeId then .error taken
  else if s.hasEdge e.id e.sourceNodeId e.targetNodeId e.kind then .error taken
  else
    match s.edges.insert e with
    | some t => .ok { s with edges := t }
    | none => .error taken

/-! ### The graph of a project -/

/-- Whether an id is that of a node of the project. -/
def isNodeOf (p id : String) : Bool := (s.rowsOf GraphNode p).any fun n => n.id == id

/-- Whether an edge ends in a node of the project. -/
def touches (p : String) (e : GraphEdge) : Bool :=
  s.isNodeOf p e.sourceNodeId || s.isNodeOf p e.targetNodeId

def edgesOf (p : String) : List GraphEdge := s.edges.rows.filter (s.touches p)

/-! ### Nodes -/

def ensureNodeProject (nodeProject : String) (expectedProject : Option String) :
    Except OrchdPersistError Unit :=
  match expectedProject with
  | some expected => if expected ≠ nodeProject then .error .notFound else .ok ()
  | none => .ok ()

def ensureFiniteGraphPos (posX posY : F64) : Except OrchdPersistError Unit :=
  if posX.isFinite && posY.isFinite then .ok ()
  else .error (.validation "graph node position must be finite (reject +inf/-inf/NaN)")

def addNode (projectId : String) (kind : GraphNodeKind) (label body : String) (posX posY : F64)
    (id : String) (now : ℤ) : Except OrchdPersistError (Store × GraphNode) := do
  if kind = .entityRef then
    throw (.validation "add_node: entityRef nodes can only be created via add_entity_ref_node")
  ensureFiniteGraphPos posX posY
  s.ensureProjectActive projectId
  let n : GraphNode := ⟨id, projectId, kind, none, none, label, body, posX, posY, now, now⟩
  let t ← s.insertNode n (.sql "UNIQUE constraint failed: graph_node.id")
  return (t, n)

def encodeEntityType : GraphEntityType → String
  | .goal => "goal"
  | .idea => "idea"
  | .insight => "insight"
  | .task => "task"

def addEntityRefNode (projectId : String) (entityType : GraphEntityType) (entityId label : String)
    (posX posY : F64) (id : String) (now : ℤ) : Except OrchdPersistError (Store × GraphNode) := do
  ensureFiniteGraphPos posX posY
  s.ensureProjectActive projectId
  let n : GraphNode :=
    ⟨id, projectId, .entityRef, some entityType, some entityId, label, "", posX, posY, now, now⟩
  let t ← s.insertNode n (.conflict
    ("an entityRef node already exists for " ++ encodeEntityType entityType ++ ":" ++ entityId))
  return (t, n)

/-- `seed_strategic_entity_ref`, inside the caller's transaction. -/
def seedStrategicEntityRef (projectId strategicGoalId title id : String) (now : ℤ) :
    Except OrchdPersistError Store :=
  s.insertNode ⟨id, projectId, .entityRef, some .goal, some strategicGoalId, title, "",
    .finite 0, .finite 0, now, now⟩ (.sql "UNIQUE constraint failed: graph_node")

def updateNode (id : String) (label body expectedProject : Option String) (now : ℤ) :
    Except OrchdPersistError (Store × GraphNode) := do
  let n : GraphNode ← s.loadRow id
  ensureNodeProject n.projectId expectedProject
  s.updateRow id fun n : GraphNode =>
    if label.isSome || body.isSome then
      { n with label := label.getD n.label, body := body.getD n.body, updatedAt := now }
    else n

def moveNode (id : String) (posX posY : F64) (expectedProject : Option String) (now : ℤ) :
    Except OrchdPersistError (Store × GraphNode) := do
  ensureFiniteGraphPos posX posY
  let n : GraphNode ← s.loadRow id
  ensureNodeProject n.projectId expectedProject
  s.updateRow id fun n : GraphNode => { n with posX := posX, posY := posY, updatedAt := now }

def deleteNode (id : String) (expectedProject : Option String) :
    Except OrchdPersistError Store := do
  let n : GraphNode ← s.loadRow id
  ensureNodeProject n.projectId expectedProject
  let t ← s.deleteRow GraphNode id
  return { t with
    edges := t.edges.keep fun e => e.sourceNodeId != id && e.targetNodeId != id }

/-! ### Edges -/

def nodeProjectId (nodeId : String) : Except OrchdPersistError String :=
  match s.nodes.lookup nodeId with
  | some n => .ok n.projectId
  | none => .error .notFound

def encodeEdgeKind : GraphEdgeKind → String
  | .relates => "relates"
  | .depends => "depends"
  | .derives => "derives"
  | .supports => "supports"
  | .contradicts => "contradicts"
  | .parent => "parent"

/-- `map_edge_conflict`. -/
def edgeConflict (source target : String) (kind : GraphEdgeKind) : OrchdPersistError :=
  .conflict ("edge " ++ source ++ "->" ++ target ++ " (" ++ encodeEdgeKind kind
    ++ ") already exists")

def addEdge (sourceNodeId targetNodeId : String) (kind : GraphEdgeKind) (label : String)
    (id : String) (now : ℤ) : Except OrchdPersistError (Store × GraphEdge) := do
  if sourceNodeId = targetNodeId then
    throw (.invariant "graph edge source and target must differ (no self-loops)")
  let sourceProject ← s.nodeProjectId sourceNodeId
  let targetProject ← s.nodeProjectId targetNodeId
  s.ensureProjectActive sourceProject
  s.ensureProjectActive targetProject
  let e : GraphEdge := ⟨id, sourceNodeId, targetNodeId, kind, label, now⟩
  let t ← s.insertEdge e (edgeConflict sourceNodeId targetNodeId kind)
  return (t, e)

/-- An edge, once the projects of both its ends are known to be active. -/
def loadActiveEdge (id : String) : Except OrchdPersistError GraphEdge := do
  match s.edges.lookup id with
  | none => throw .notFound
  | some e =>
    -- the join of `update_edge` and `delete_edge` has no row without both nodes
    let sourceProject ← s.nodeProjectId e.sourceNodeId
    let targetProject ← s.nodeProjectId e.targetNodeId
    s.ensureProjectActive sourceProject
    if targetProject ≠ sourceProject then s.ensureProjectActive targetProject
    return e

def updateEdge (id : String) (kind : GraphEdgeKind) :
    Except OrchdPersistError (Store × GraphEdge) := do
  let e ← s.loadActiveEdge id
  if s.hasEdge id e.sourceNodeId e.targetNodeId kind then
    throw (edgeConflict e.sourceNodeId e.targetNodeId kind)
  let e' := { e with kind := kind }
  return ({ s with edges := s.edges.replace e' }, e')

def deleteEdge (id : String) : Except OrchdPersistError Store := do
  let _ ← s.loadActiveEdge id
  return { s with edges := s.edges.erase id }

end BuilderPro.Store
