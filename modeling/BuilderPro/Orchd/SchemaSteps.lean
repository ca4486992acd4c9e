import BuilderPro.DaemonCore.Migrations

/-!
# The schema steps of the orchestrator

The steps of `persistence.rs`, from an empty database to version 8.  A unique index is among the
constraints of the table it is created for, in the same step; an `id` is not null, as each is bound
to a `String`.  Each step but the backfill defines the next schema from the last (`defines_v1` to
`defines_v8`).
-/

namespace BuilderPro

open Sql (Database Definition Table Column Cond Constraint Value)

namespace OrchdSchema

def schemaVersion : ℕ := 8

def projectTable : Table where
  name := "project"
  columns := [.ofText "id", .ofText "name", .ofTextOr "description" "", .ofTextOr "status" "active",
    .ofInteger "created_at", .ofInteger "updated_at"]
  constraints := [.unique ["id"] none, .check (.oneOf "status" ["active", "archived"])]
  rows := []

def projectWorkspaceTable : Table where
  name := "project_workspace"
  columns := [.ofText "project_id", .ofText "workspace_id", .ofInteger "ord"]
  constraints := [.references "project_id" "project" "id", .unique ["workspace_id"] none,
    .unique ["project_id", "workspace_id"] none]
  rows := []

def goalTable : Table where
  name := "goal"
  columns := [.ofText "id", .ofText "project_id", .ofTextOrNull "parent_id", .ofText "kind",
    .ofText "title", .ofTextOr "body" "", .ofIntegerOr "ord" 0, .ofTextOr "status" "active",
    .ofTextOr "metric_refs" "[]", .ofInteger "created_at", .ofInteger "updated_at"]
  constraints := [.unique ["id"] none, .references "project_id" "project" "id",
    .references "parent_id" "goal" "id", .check (.oneOf "kind" ["strategic", "additional"]),
    .check (.oneOf "status" ["active", "achieved", "dropped"]),
    .unique ["project_id"] (some (.eq "kind" (.text "strategic")))]
  rows := []

def ideaTable : Table where
  name := "idea"
  columns := [.ofText "id", .ofTextOrNull "project_id", .ofText "title", .ofTextOr "body" "",
    .ofTextOr "lifecycle" "captured", .ofInteger "created_at", .ofInteger "updated_at"]
  constraints := [.unique ["id"] none, .references "project_id" "project" "id",
    .check (.oneOf "lifecycle"
      ["captured", "researching", "specced", "in_dev", "shipped", "archived"])]
  rows := []

def insightTable : Table where
  name := "insight"
  columns := [.ofText "id", .ofTextOrNull "project_id", .ofTextOr "source" "", .ofText "title",
    .ofTextOr "body" "", .ofTextOrNull "fit_verdict", .ofTextOr "fit_reasoning" "",
    .ofTextOr "status" "new", .ofTextOr "resolution_reasoning" "", .ofInteger "created_at",
    .ofInteger "updated_at"]
  constraints := [.unique ["id"] none, .references "project_id" "project" "id",
    .check (.oneOf "fit_verdict" ["fit", "no_fit", "unknown"]),
    .check (.oneOf "status" ["new", "accepted", "archived"])]
  rows := []

def taskTable : Table where
  name := "task"
  columns := [.ofText "id", .ofText "project_id", .ofTextOrNull "parent_id", .ofText "title",
    .ofTextOr "body" "", .ofTextOr "status" "backlog", .ofText "source",
    .ofTextOrNull "source_id", .ofTextOr "tags" "[]", ⟨"rank", .real, true, .null⟩,
    ⟨"rank_agent", .real, false, .null⟩, .ofTextOr "rank_agent_reasoning" "",
    .ofInteger "created_at", .ofInteger "updated_at"]
  constraints := [.unique ["id"] none, .references "project_id" "project" "id",
    .references "parent_id" "task" "id",
    .check (.oneOf "status" ["backlog", "todo", "waiting", "progress", "testing", "done"]),
    .check (.oneOf "source" ["idea", "insight", "bug", "plan"])]
  rows := []

def rulesetTable : Table where
  name := "ruleset"
  columns := [.ofText "id", .ofText "scope", .ofTextOrNull "project_id", .ofText "md_path",
    .ofTextOr "md_hash" "", .ofTextOr "policy" "{}", .ofInteger "created_at",
    .ofInteger "updated_at"]
  constraints := [.unique ["id"] none, .check (.oneOf "scope" ["global", "project"]),
    .unique ["project_id"] none, .references "project_id" "project" "id",
    .check (.or (.and (.eq "scope" (.text "global")) (.isNull "project_id"))
      (.and (.eq "scope" (.text "project")) (.notNull "project_id"))),
    .unique ["scope"] (some (.eq "scope" (.text "global")))]
  rows := []

def migrateV1 : List Definition :=
  [.createTable false projectTable, .createTable false projectWorkspaceTable,
    .createTable false goalTable, .createIndex, .createIndex, .createTable false ideaTable,
    .createIndex, .createTable false insightTable, .createIndex, .createTable false taskTable,
    .createIndex, .createIndex, .createTable false rulesetTable, .createIndex]

def graphNodeTable : Table where
  name := "graph_node"
  columns := [.ofText "id", .ofText "project_id", .ofText "kind", .ofTextOrNull "entity_type",
    .ofTextOrNull "entity_id", .ofText "label", .ofTextOr "body" "",
    ⟨"pos_x", .real, true, .real 0⟩, ⟨"pos_y", .real, true, .real 0⟩, .ofInteger "created_at",
    .ofInteger "updated_at"]
  constraints := [.unique ["id"] none, .references "project_id" "project" "id",
    .check (.oneOf "kind" ["concept", "fact", "artifact", "decision", "note", "entity_ref"]),
    .check (.oneOf "entity_type" ["goal", "idea", "insight", "task"]),
    .check (.same (.eq "kind" (.text "entity_ref"))
      (.and (.notNull "entity_type") (.notNull "entity_id"))),
    .unique ["entity_type", "entity_id"] (some (.eq "kind" (.text "entity_ref")))]
  rows := []

def graphEdgeTable : Table where
  name := "graph_edge"
  columns := [.ofText "id", .ofText "source_node_id", .ofText "target_node_id", .ofText "kind",
    .ofTextOr "label" "", .ofInteger "created_at"]
  constraints := [.unique ["id"] none, .references "source_node_id" "graph_node" "id",
    .references "target_node_id" "graph_node" "id",
    .check (.oneOf "kind"
      ["relates", "depends", "derives", "supports", "contradicts", "parent"]),
    .check (.differ "source_node_id" "target_node_id"),
    .unique ["source_node_id", "target_node_id", "kind"] none]
  rows := []

def graphTables : List Definition :=
  [.createTable false graphNodeTable, .createIndex, .createIndex,
    .createTable false graphEdgeTable, .createIndex, .createIndex, .createIndex]

def isStrategic (g : Sql.Row) : Bool := g "kind" = .text "strategic"

/-- Whether a node stands for a goal. -/
def refersTo (g n : Sql.Row) : Bool :=
  n "kind" = .text "entity_ref" ∧ n "entity_type" = .text "goal" ∧ n "entity_id" = g "id"

/-- The `SELECT` of the backfill: the strategic goals that no node stands for. -/
def pending (db : Database) : List Sql.Row :=
  (db.rowsOf "goal").filter fun g =>
    isStrategic g && !(db.rowsOf "graph_node").any (refersTo g)

/-- A column that is read as a `String`. -/
def getText : Value → Except String String
  | .text s => .ok s
  | _ => .error "Invalid column type"

def readGoal (g : Sql.Row) : Except String (String × String × String) := do
  let id ← getText (g "id")
  let projectId ← getText (g "project_id")
  let title ← getText (g "title")
  return (id, projectId, title)

/-- The columns of the goals found. -/
def readPending (db : Database) : Except String (List (String × String × String)) :=
  (pending db).mapM readGoal

/-- The node `seed_strategic_entity_ref` inserts. -/
def seedRow (nodeId projectId goalId title : String) (now : ℤ) : Sql.Row :=
  Sql.rowOf [("id", .text nodeId), ("project_id", .text projectId), ("kind", .text "entity_ref"),
    ("entity_type", .text "goal"), ("entity_id", .text goalId), ("label", .text title),
    ("body", .text ""), ("pos_x", .real 0), ("pos_y", .real 0), ("created_at", .integer now),
    ("updated_at", .integer now)]

def seedStrategicEntityRef (m : Machine) (projectId goalId title : String) : Transaction Unit :=
  statement m fun nodeId now db =>
    Sql.insert "graph_node" (seedRow nodeId projectId goalId title now) db

def migrateV2 (m : Machine) : Transaction Unit := do
  executeBatch m graphTables
  let goals ← query m readPending
  goals.forM fun g => seedStrategicEntityRef m g.2.1 g.1 g.2.2

def mcpServerTable : Table where
  name := "mcp_server"
  columns := [.ofText "id", .ofText "name", .ofText "transport", .ofTextOrNull "url",
    .ofTextOrNull "command", .ofTextOr "args_json" "[]", .ofTextOr "env_json" "{}",
    .ofText "scope", .ofTextOrNull "project_id", .ofTextOr "auth_kind" "none",
    .ofTextOrNull "secret_ref", .ofTextOrNull "account_id", .ofIntegerOr "enabled" 1,
    .ofIntegerOr "timeout_ms" 30000, .ofIntegerOr "max_retries" 2,
    .ofTextOrNull "protocol_version", .ofInteger "created_at", .ofInteger "updated_at"]
  constraints := [.unique ["id"] none, .references "project_id" "project" "id",
    .check (.same (.eq "scope" (.text "project")) (.notNull "project_id")),
    .check (.oneOf "transport" ["http", "stdio"]),
    .check (.same (.eq "transport" (.text "http")) (.notNull "url"))]
  rows := []

def mcpToolTable : Table where
  name := "mcp_tool"
  columns := [.ofText "id", .ofText "server_id", .ofText "name", .ofTextOrNull "title",
    .ofTextOrNull "description", .ofTextOr "input_schema_json" "{}", .ofIntegerOr "enabled" 1,
    .ofInteger "fetched_at"]
  constraints := [.unique ["id"] none, .references "server_id" "mcp_server" "id",
    .unique ["server_id", "name"] none]
  rows := []

def accountTable : Table where
  name := "account"
  columns := [.ofText "id", .ofText "provider", .ofText "label", .ofText "auth_kind",
    .ofText "secret_ref", .ofTextOr "scopes_json" "[]", .ofIntegerOrNull "expires_at",
    .ofTextOrNull "refresh_ref", .ofInteger "created_at", .ofInteger "updated_at"]
  constraints := [.unique ["id"] none]
  rows := []

/-- `CHECK ( (server_id IS NOT NULL) <> (account_id IS NOT NULL) )`. -/
def oneSource : Constraint :=
  .check (.not (.same (.notNull "server_id") (.notNull "account_id")))

def mcpInvocationTable : Table where
  name := "mcp_invocation"
  columns := [.ofText "id", .ofTextOrNull "server_id", .ofTextOrNull "account_id",
    .ofText "tool_name", .ofTextOrNull "project_id", .ofText "request_hash", .ofInteger "ok",
    .ofTextOrNull "error_kind", .ofInteger "latency_ms", ⟨"cost_usd", .real, false, .null⟩,
    .ofIntegerOrNull "input_tokens", .ofIntegerOrNull "output_tokens", .ofInteger "started_at"]
  constraints := [.unique ["id"] none, .references "server_id" "mcp_server" "id",
    .references "account_id" "account" "id", oneSource]
  rows := []

def mcpArtifactTable : Table where
  name := "mcp_artifact"
  columns := [.ofText "id", .ofText "invocation_id", .ofTextOrNull "server_id",
    .ofTextOrNull "account_id", .ofText "tool_name", .ofTextOrNull "project_id",
    .ofText "content_json", .ofTextOrNull "content_text", .ofIntegerOr "is_untrusted" 1,
    .ofInteger "created_at"]
  constraints := [.unique ["id"] none, .references "invocation_id" "mcp_invocation" "id",
    .references "server_id" "mcp_server" "id", .references "account_id" "account" "id",
    oneSource]
  rows := []

def skillTable : Table where
  name := "skill"
  columns := [.ofText "id", .ofText "name", .ofText "description", .ofText "md_path",
    .ofText "md_hash", .ofText "scope", .ofTextOrNull "project_id", .ofInteger "created_at",
    .ofInteger "updated_at"]
  constraints := [.unique ["id"] none, .references "project_id" "project" "id",
    .check (.same (.eq "scope" (.text "project")) (.notNull "project_id"))]
  rows := []

def consentGrantTable : Table where
  name := "consent_grant"
  columns := [.ofText "id", .ofText "kind", .ofText "server_id", .ofText "fingerprint",
    .ofInteger "granted_at"]
  constraints := [.unique ["id"] none, .references "server_id" "mcp_server" "id",
    .unique ["server_id", "kind"] none]
  rows := []

def policyTable : Table where
  name := "policy"
  columns := [.ofText "id", .ofText "scope", .ofTextOrNull "ref_id",
    ⟨"spend_cap_usd", .real, false, .null⟩, .ofIntegerOrNull "rate_per_min",
    .ofInteger "created_at", .ofInteger "updated_at"]
  constraints := [.unique ["id"] none, .check (.oneOf "scope" ["global", "project", "server"]),
    .check (.same (.eq "scope" (.text "global")) (.isNull "ref_id"))]
  rows := []

def auditLogTable : Table where
  name := "audit_log"
  columns := [.ofText "id", .ofInteger "at", .ofText "action", .ofTextOrNull "server_id",
    .ofTextOrNull "tool_name", .ofTextOrNull "project_id", .ofText "decision",
    .ofTextOrNull "reason", .ofTextOrNull "invocation_id"]
  constraints := [.unique ["id"] none]
  rows := []

def migrateV3 : List Definition :=
  [.createTable false mcpServerTable, .createIndex, .createTable false mcpToolTable, .createIndex,
    .createTable false accountTable, .createTable false mcpInvocationTable, .createIndex,
    .createTable false mcpArtifactTable, .createIndex, .createTable false skillTable,
    .createTable false consentGrantTable, .createTable false policyTable,
    .createTable false auditLogTable, .createIndex]

def researchRunTable : Table where
  name := "research_run"
  columns := [.ofText "id", .ofText "idea_id", .ofText "server_id", .ofText "tool_name",
    .ofTextOr "args_json" "{}", .ofTextOr "status" "pending", .ofTextOrNull "invocation_id",
    .ofTextOrNull "artifact_id", .ofTextOrNull "error_kind", .ofInteger "created_at",
    .ofInteger "updated_at"]
  constraints := [.unique ["id"] none, .references "idea_id" "idea" "id",
    .references "server_id" "mcp_server" "id",
    .check (.oneOf "status" ["pending", "running", "done", "failed"]),
    .check (.same (.eq "status" (.text "done")) (.notNull "artifact_id"))]
  rows := []

def migrateV4 : List Definition := [.createTable false researchRunTable, .createIndex]

def priorityColumn : Column := .ofTextOr "priority" "normal"

def migrateV5 : List Definition :=
  [.addColumn "task" priorityColumn [.oneOf "priority" ["urgent", "normal"]]]

def docTable : Table where
  name := "doc"
  columns := [.ofText "id", .ofText "project_id", .ofText "name", .ofText "md_path",
    .ofTextOr "md_hash" "", .ofInteger "created_at", .ofInteger "updated_at"]
  constraints := [.unique ["id"] none, .check (.ne "name" (.text "")),
    .references "project_id" "project" "id", .unique ["project_id", "name"] none]
  rows := []

def migrateV6 : List Definition := [.createTable false docTable]

def workflowTable : Table where
  name := "workflow"
  columns := [.ofText "id", .ofText "scope", .ofTextOrNull "project_id", .ofText "name",
    .ofText "json_path", .ofTextOr "hash" "", .ofInteger "created_at", .ofInteger "updated_at"]
  constraints := [.unique ["id"] none, .check (.oneOf "scope" ["global", "project"]),
    .check (.ne "name" (.text "")), .references "project_id" "project" "id",
    .check (.same (.eq "scope" (.text "project")) (.notNull "project_id"))]
  rows := []

def migrateV7 : List Definition := [.createTable false workflowTable, .createIndex]

def truncatedColumn : Column := .ofIntegerOr "truncated" 0

def migrateV8 : List Definition := [.addColumn "mcp_artifact" truncatedColumn []]

/-! ### The schemas -/

def taskTableV5 : Table :=
  taskTable.addColumn priorityColumn [.oneOf "priority" ["urgent", "normal"]]

def mcpArtifactTableV8 : Table := mcpArtifactTable.addColumn truncatedColumn []

def firstTables (task : Table) : List Table :=
  [projectTable, projectWorkspaceTable, goalTable, ideaTable, insightTable, task, rulesetTable]

def graphSchema : List Table := [graphNodeTable, graphEdgeTable]

def mcpTables (artifact : Table) : List Table :=
  [mcpServerTable, mcpToolTable, accountTable, mcpInvocationTable, artifact, skillTable,
    consentGrantTable, policyTable, auditLogTable]

def schema : ℕ → List Table
  | 0 => []
  | 1 => firstTables taskTable
  | 2 => firstTables taskTable ++ graphSchema
  | 3 => firstTables taskTable ++ graphSchema ++ mcpTables mcpArtifactTable
  | 4 => firstTables taskTable ++ graphSchema ++ mcpTables mcpArtifactTable ++ [researchRunTable]
  | 5 => firstTables taskTableV5 ++ graphSchema ++ mcpTables mcpArtifactTable ++
      [researchRunTable]
  | 6 => firstTables taskTableV5 ++ graphSchema ++ mcpTables mcpArtifactTable ++
      [researchRunTable, docTable]
  | 7 => firstTables taskTableV5 ++ graphSchema ++ mcpTables mcpArtifactTable ++
      [researchRunTable, docTable, workflowTable]
  | _ => firstTables taskTableV5 ++ graphSchema ++ mcpTables mcpArtifactTableV8 ++
      [researchRunTable, docTable, workflowTable]

/-- Tables that are created one after another. -/
theorem defines_createTable {t : Table} {definitions : List Definition} {shape shape' : List Table}
    (hnew : t.name ∉ shape.map Table.name) (hrows : t.rows = [])
    (h : Defines definitions (shape ++ [t]) shape') :
    Defines (.createTable false t :: definitions) shape shape' := by
  refine .cons _ _ trivial trivial ?_ h
  have hnames : t.name ∉ (⟨shape, 0⟩ : Database).names := hnew
  simp only [Definition.exec, hnames, if_false]
  rw [← hrows]

theorem defines_createIndex {definitions : List Definition} {shape shape' : List Table}
    (h : Defines definitions shape shape') : Defines (.createIndex :: definitions) shape shape' :=
  .cons _ _ trivial trivial rfl h

theorem defines_v1 : Defines migrateV1 (schema 0) (schema 1) := by
  unfold migrateV1
  repeat' first
    | exact .nil _
    | refine defines_createIndex ?_
    | refine defines_createTable (by decide) rfl ?_

theorem defines_graphTables : Defines graphTables (schema 1) (schema 2) := by
  unfold graphTables
  repeat' first
    | exact .nil _
    | refine defines_createIndex ?_
    | refine defines_createTable (by decide) rfl ?_

theorem defines_v3 : Defines migrateV3 (schema 2) (schema 3) := by
  unfold migrateV3
  repeat' first
    | exact .nil _
    | refine defines_createIndex ?_
    | refine defines_createTable (by decide) rfl ?_

theorem defines_v4 : Defines migrateV4 (schema 3) (schema 4) :=
  defines_createTable (by decide) rfl (defines_createIndex (.nil _))

theorem defines_v6 : Defines migrateV6 (schema 5) (schema 6) :=
  defines_createTable (by decide) rfl (.nil _)

theorem defines_v7 : Defines migrateV7 (schema 6) (schema 7) :=
  defines_createTable (by decide) rfl (defines_createIndex (.nil _))

theorem defines_v5 : Defines migrateV5 (schema 4) (schema 5) := by
  refine .cons _ _ ⟨by decide, ?_⟩ ?_ rfl (.nil _)
  · intro a ha
    obtain rfl := List.mem_singleton.1 ha
    exact ⟨by decide, by decide⟩
  · have hread : ∀ t ∈ schema 4, ∀ k ∈ t.constraints, "priority" ∉ k.columns := by decide
    exact hread

theorem defines_v8 : Defines migrateV8 (schema 7) (schema 8) := by
  refine .cons _ _ ⟨by decide, ?_⟩ ?_ rfl (.nil _)
  · intro a ha
    simp at ha
  · have hread : ∀ t ∈ schema 7, ∀ k ∈ t.constraints, "truncated" ∉ k.columns := by decide
    exact hread

end OrchdSchema

end BuilderPro
