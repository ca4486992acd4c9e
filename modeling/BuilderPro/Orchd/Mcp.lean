import BuilderPro.Lib.Results
import BuilderPro.Orchd.Items

/-!
# The MCP registry

`mcp/registry.rs` and the tables of schema v3 and v4: servers with their cached tools, consent
grants, policies, the audit log, invocations, accounts and research runs.
-/

namespace BuilderPro

inductive McpTransport
  | http
  | stdio
  deriving DecidableEq, Repr

inductive McpScope
  | global
  | project
  deriving DecidableEq, Repr

inductive McpAuthKind
  | none
  | bearer
  | oauth
  deriving DecidableEq, Repr

/-- A `BTreeMap<String, String>`: its entries, in the order of their keys. -/
structure EnvMap where
  entries : List (String × String)
  sorted : entries.Pairwise (·.1 < ·.1)
  deriving DecidableEq

def EnvMap.empty : EnvMap := ⟨[], .nil⟩

/-- What `add_mcp_server` is given. -/
structure NewMcpServer where
  name : String
  transport : McpTransport
  url : Option String
  command : Option String
  args : List String
  env : EnvMap
  scope : McpScope
  projectId : Option String
  authKind : McpAuthKind
  secretRef : Option String
  accountId : Option String
  enabled : Bool
  timeoutMs : ℤ
  maxRetries : ℤ
  deriving DecidableEq

/-- A `mcp_server` row. -/
structure McpServerRow extends NewMcpServer where
  id : String
  protocolVersion : Option String
  createdAt : ℤ
  updatedAt : ℤ
  deriving DecidableEq

structure McpServerPatch where
  name : Option String
  url : Option String
  command : Option String
  args : Option (List String)
  env : Option EnvMap
  authKind : Option McpAuthKind
  secretRef : Option String
  accountId : Option String
  timeoutMs : Option ℤ
  maxRetries : Option ℤ
  deriving DecidableEq

/-- A tool as its server advertises it. -/
structure NewMcpTool where
  name : String
  title : Option String
  description : Option String
  inputSchemaJson : String
  deriving DecidableEq, Repr

/-- A `mcp_tool` row. -/
structure McpToolRow extends NewMcpTool where
  id : String
  serverId : String
  enabled : Bool
  fetchedAt : ℤ
  deriving DecidableEq, Repr

inductive AccountAuthKind
  | oauth
  | apikey
  deriving DecidableEq, Repr

/-- An `account` row. -/
structure AccountRow where
  id : String
  provider : String
  label : String
  authKind : AccountAuthKind
  secretRef : String
  scopes : List String
  expiresAt : Option ℤ
  refreshRef : Option String
  createdAt : ℤ
  updatedAt : ℤ
  deriving DecidableEq, Repr

/-- A `mcp_invocation` row; exactly one of its server and its account is set. -/
structure McpInvocation where
  id : String
  serverId : Option String
  accountId : Option String
  toolName : String
  projectId : Option String
  requestHash : String
  ok : Bool
  errorKind : Option String
  latencyMs : ℤ
  costUsd : Option F64
  inputTokens : Option ℤ
  outputTokens : Option ℤ
  startedAt : ℤ
  deriving DecidableEq, Repr

/-- A `consent_grant` row. -/
structure ConsentRow where
  id : String
  kind : String
  serverId : String
  fingerprint : String
  grantedAt : ℤ
  deriving DecidableEq, Repr

/-- `UNIQUE(server_id, kind)`. -/
def ConsentRow.slot (c : ConsentRow) : String × String := (c.serverId, c.kind)

inductive PolicyScope
  | global
  | project
  | server
  deriving DecidableEq, Repr

/-- A `policy` row. -/
structure Policy where
  id : String
  scope : PolicyScope
  refId : Option String
  spendCapUsd : Option F64
  ratePerMin : Option ℤ
  createdAt : ℤ
  updatedAt : ℤ
  deriving DecidableEq, Repr

/-- What a policy is for; `upsert_policy` keeps one row for each. -/
def Policy.slot (p : Policy) : PolicyScope × Option String := (p.scope, p.refId)

inductive AuditAction
  | connect
  | stdioSpawn
  | toolCall
  | connectorInvoke
  | policyDeny
  | consentGrant
  | consentRevoke
  deriving DecidableEq, Repr

inductive AuditDecision
  | allow
  | deny
  deriving DecidableEq, Repr

/-- An `audit_log` row. -/
structure AuditRow where
  id : String
  atMs : ℤ
  action : AuditAction
  serverId : Option String
  toolName : Option String
  projectId : Option String
  decision : AuditDecision
  reason : Option String
  deriving DecidableEq, Repr

inductive ResearchStatus
  | pending
  | running
  | done
  | failed
  deriving DecidableEq, Repr

/-- A `research_run` row. -/
structure ResearchRunRow where
  id : String
  ideaId : String
  serverId : String
  toolName : String
  argsJson : String
  status : ResearchStatus
  invocationId : Option String
  artifactId : Option String
  errorKind : Option String
  createdAt : ℤ
  updatedAt : ℤ
  deriving DecidableEq, Repr

/-- `UNIQUE(server_id, name)`. -/
def McpToolRow.slot (t : McpToolRow) : String × String := (t.serverId, t.name)

/-- `mcp_tool`. -/
structure ToolTable extends KeyedTable McpToolRow.id where
  named : (rows.map McpToolRow.slot).Nodup

namespace ToolTable

def empty : ToolTable := ⟨.empty, .nil⟩

variable (t : ToolTable)

/-- The tool of a name, among a server's. -/
def find (serverId name : String) : Option McpToolRow :=
  t.rows.find? fun x => x.slot = (serverId, name)

def keep (p : McpToolRow → Bool) : ToolTable :=
  ⟨t.toKeyedTable.keep p, t.named.sublist (List.filter_sublist.map _)⟩

/-- Adds a row, unless its id or its name is taken. -/
def insert (x : McpToolRow) : Option ToolTable :=
  if h : (∃ y ∈ t.rows, y.id = x.id) ∨ ∃ y ∈ t.rows, y.slot = x.slot then none
  else some
    { rows := t.rows ++ [x]
      nodup := by
        rw [List.map_append, List.map_singleton, ← List.concat_eq_append]
        refine List.Nodup.concat (fun hx => h (.inl ?_)) t.nodup
        simpa using hx
      named := by
        rw [List.map_append, List.map_singleton, ← List.concat_eq_append]
        refine List.Nodup.concat (fun hx => h (.inr ?_)) t.named
        simpa using hx }

/-- Sets the flag of the row of an id. -/
def setEnabled (id : String) (enabled : Bool) : ToolTable :=
  have hkey : ∀ {β : Type} (key : McpToolRow → β), (∀ x b, key { x with enabled := b } = key x) →
      ((t.rows.map fun x => if x.id = id then { x with enabled := enabled } else x).map key)
        = t.rows.map key := by
    intro β key hkey
    rw [List.map_map]
    refine List.map_congr_left fun x _ => ?_
    simp only [Function.comp]
    split_ifs
    · exact hkey x enabled
    · rfl
  { rows := t.rows.map fun x => if x.id = id then { x with enabled := enabled } else x
    nodup := by
      rw [hkey McpToolRow.id fun _ _ => rfl]
      exact t.nodup
    named := by
      rw [hkey McpToolRow.slot fun _ _ => rfl]
      exact t.named }

end ToolTable

/-- The domain's tables with those of schema v3 and v4. -/
structure ExtStore where
  domain : Store
  servers : KeyedTable McpServerRow.id
  tools : ToolTable
  accounts : KeyedTable AccountRow.id
  invocations : KeyedTable McpInvocation.id
  consents : KeyedTable ConsentRow.slot
  policies : KeyedTable Policy.slot
  audit : KeyedTable AuditRow.id
  runs : KeyedTable ResearchRunRow.id

def ExtStore.empty : ExtStore :=
  ⟨.empty, .empty, .empty, .empty, .empty, .empty, .empty, .empty, .empty⟩

/-- `validate_new_server`: the table's checks. -/
def validateNewServer (new : NewMcpServer) : Except OrchdPersistError Unit := do
  match new.scope, new.projectId with
  | .project, none => throw (.validation "mcp_server: scope='project' requires project_id")
  | .global, some _ =>
    throw (.validation "mcp_server: scope='global' requires project_id to be absent")
  | _, _ => pure ()
  match new.transport, new.url with
  | .http, none => throw (.validation "mcp_server: transport='http' requires url")
  | .stdio, some _ => throw (.validation "mcp_server: transport='stdio' requires url to be absent")
  | _, _ => pure ()

namespace ExtStore

variable (e : ExtStore)

/-! ### Servers -/

/-- `get_mcp_server`. -/
def getMcpServer (id : String) : Except OrchdPersistError McpServerRow :=
  match e.servers.lookup id with
  | some x => .ok x
  | none => .error .notFound

/-- The server of an id, once its project is known to be active. -/
def activeServer (id : String) : Except OrchdPersistError McpServerRow := do
  let x ← e.getMcpServer id
  e.domain.ensureOptionalProjectActive x.projectId
  return x

def addMcpServer (new : NewMcpServer) (id : String) (now : ℤ) :
    Except OrchdPersistError (ExtStore × McpServerRow) := do
  validateNewServer new
  e.domain.ensureOptionalProjectActive new.projectId
  let x : McpServerRow := ⟨new, id, none, now, now⟩
  match e.servers.insert x with
  | some t => return ({ e with servers := t }, x)
  | none => throw (.sql "UNIQUE constraint failed: mcp_server.id")

end ExtStore

namespace McpServerPatch

variable (p : McpServerPatch)

def anyField : Bool :=
  p.name.isSome || p.url.isSome || p.command.isSome || p.args.isSome || p.env.isSome
    || p.authKind.isSome || p.secretRef.isSome || p.accountId.isSome || p.timeoutMs.isSome
    || p.maxRetries.isSome

/-- Whether a field the consent fingerprint commits to is patched. -/
def securityFieldTouched : Bool :=
  p.url.isSome || p.command.isSome || p.args.isSome || p.env.isSome

/-- The `COALESCE` of each column. -/
def apply (x : McpServerRow) (now : ℤ) : McpServerRow :=
  if p.anyField then
    { x with
      name := p.name.getD x.name, url := p.url.orElse fun _ => x.url,
      command := p.command.orElse fun _ => x.command, args := p.args.getD x.args,
      env := p.env.getD x.env, authKind := p.authKind.getD x.authKind,
      secretRef := p.secretRef.orElse fun _ => x.secretRef,
      accountId := p.accountId.orElse fun _ => x.accountId,
      timeoutMs := p.timeoutMs.getD x.timeoutMs, maxRetries := p.maxRetries.getD x.maxRetries,
      updatedAt := now }
  else x

end McpServerPatch

namespace ExtStore

variable (e : ExtStore)

/-- `delete_consents_for_server_tx`. -/
def deleteConsents (serverId : String) : ExtStore :=
  { e with consents := e.consents.keep fun c => c.serverId ≠ serverId }

/-- `update_mcp_server`: a patch of what the fingerprint commits to takes the grants along. -/
def updateMcpServer (id : String) (patch : McpServerPatch) (now : ℤ) :
    Except OrchdPersistError (ExtStore × McpServerRow) := do
  let x ← e.activeServer id
  if patch.url.isSome && x.transport = .stdio then
    throw (.validation "mcp_server: cannot set url on a stdio-transport server")
  let e := { e with servers := e.servers.replace (patch.apply x now) }
  return (if patch.securityFieldTouched then e.deleteConsents id else e, patch.apply x now)

def setMcpServerEnabled (id : String) (enabled : Bool) (now : ℤ) :
    Except OrchdPersistError (ExtStore × McpServerRow) := do
  let x ← e.activeServer id
  let y : McpServerRow := { x with enabled := enabled, updatedAt := now }
  return ({ e with servers := e.servers.replace y }, y)

def setMcpServerSecretRef (id secretRef : String) (now : ℤ) :
    Except OrchdPersistError (ExtStore × McpServerRow) := do
  let x ← e.getMcpServer id
  let y : McpServerRow := { x with secretRef := some secretRef, updatedAt := now }
  return ({ e with servers := e.servers.replace y }, y)

/-- `delete_mcp_server`: what refers to the row goes with it. -/
def deleteMcpServer (id : String) : Except OrchdPersistError ExtStore := do
  let _ ← e.activeServer id
  return { e with
    servers := e.servers.erase id
    tools := e.tools.keep fun t => t.serverId ≠ id
    invocations := e.invocations.keep fun i => i.serverId ≠ some id
    consents := e.consents.keep fun c => c.serverId ≠ id
    runs := e.runs.keep fun r => r.serverId ≠ id }

/-! ### Tools -/

/-- The rows `upsert_mcp_tools` puts in: a tool of a name there was keeps its flag, and a new one is
enabled. -/
def freshTools (serverId : String) (tools : List NewMcpTool) (draw : ℕ → String) (now : ℤ) :
    List McpToolRow :=
  tools.zipIdx.map fun (t, i) =>
    ⟨t, draw i, serverId, ((e.tools.find serverId t.name).map McpToolRow.enabled).getD true, now⟩

def insertTool (t : ToolTable) (x : McpToolRow) : Except OrchdPersistError ToolTable :=
  match t.insert x with
  | some u => .ok u
  | none => .error (.sql "UNIQUE constraint failed: mcp_tool")

/-- `upsert_mcp_tools`: the server's tools are replaced by those of a list. -/
def upsertMcpTools (serverId : String) (tools : List NewMcpTool) (draw : ℕ → String) (now : ℤ) :
    Except OrchdPersistError ExtStore := do
  let _ ← e.activeServer serverId
  let cleared := e.tools.keep fun t => t.serverId ≠ serverId
  let t ← (e.freshTools serverId tools draw now).foldlM insertTool cleared
  return { e with tools := t }

def listMcpTools (serverId : String) : List McpToolRow :=
  (e.tools.rows.filter fun t => t.serverId = serverId).insertionSort fun x y => x.name ≤ y.name

def setMcpToolEnabled (toolId : String) (enabled : Bool) :
    Except OrchdPersistError (ExtStore × McpToolRow) := do
  match e.tools.lookup toolId with
  | some x =>
    return ({ e with tools := e.tools.setEnabled toolId enabled }, { x with enabled := enabled })
  | none => throw .notFound

/-! ### Accounts -/

def insertAccount (x : AccountRow) : Except OrchdPersistError ExtStore :=
  match e.accounts.insert x with
  | some t => .ok { e with accounts := t }
  | none => .error (.conflict ("account " ++ x.id ++ " already exists"))

/-- The `DELETE` of `delete_account`: the account's invocations go with it. -/
def eraseAccount (id : String) : ExtStore :=
  { e with
    accounts := e.accounts.erase id
    invocations := e.invocations.keep fun i => i.accountId ≠ some id }

/-! ### Research runs -/

/-- `start_research_run`: the run's row, and the idea's lifecycle. -/
def startResearchRun (ideaId serverId toolName argsJson id : String) (now : ℤ) :
    Except OrchdPersistError (ExtStore × ResearchRunRow) := do
  let (domain, _) ← e.domain.startResearchRun ideaId (e.servers.lookup serverId).isSome now
  let row : ResearchRunRow :=
    ⟨id, ideaId, serverId, toolName, argsJson, .pending, none, none, none, now, now⟩
  match e.runs.insert row with
  | some t => return ({ e with domain := domain, runs := t }, row)
  | none => throw (.sql "UNIQUE constraint failed: research_run.id")

/-- The `UPDATE` of a run's row. -/
def updateRun (id : String) (f : ResearchRunRow → ResearchRunRow) :
    Except OrchdPersistError ExtStore :=
  match e.runs.lookup id with
  | some x => .ok { e with runs := e.runs.replace (f x) }
  | none => .error .notFound

def setResearchRunRunning (id : String) (now : ℤ) : Except OrchdPersistError ExtStore :=
  e.updateRun id fun x => { x with status := .running, updatedAt := now }

def setResearchRunDone (id invocationId artifactId : String) (now : ℤ) :
    Except OrchdPersistError ExtStore :=
  e.updateRun id fun x =>
    { x with
      status := .done, invocationId := some invocationId, artifactId := some artifactId,
      errorKind := none, updatedAt := now }

def setResearchRunFailed (id errorKind : String) (now : ℤ) : Except OrchdPersistError ExtStore :=
  e.updateRun id fun x =>
    { x with status := .failed, errorKind := some errorKind, artifactId := none, updatedAt := now }

end ExtStore

end BuilderPro
