import BuilderPro.Orchd.Trust

/-!
# Calls and connects

`mcp/invoke.rs`, `mcp/lifecycle.rs`, `connectors/adapter.rs` and `research/mod.rs`: a request that
leaves the daemon is let through under the store's lock, waits for its peer without it, and takes it
once more to write down what came of it.  What other requests do in between is up to the order of
the actions.
-/

namespace BuilderPro

/-- `SecretRef`: where in the keychain a secret is. -/
structure SecretRef where
  service : String
  account : String
  deriving DecidableEq, Repr

def mcpBearerRef (serverId : String) : SecretRef := ⟨"ai.builderpro.desktop.mcp", serverId⟩

def accountRef (accountId kind : String) : SecretRef :=
  ⟨"ai.builderpro.desktop.account", accountId ++ ":" ++ kind⟩

inductive McpError
  | transport
  | protocol
  | timeout
  | toolError
  | auth
  deriving DecidableEq, Repr

/-- `classify_error_kind`. -/
def McpError.kind : McpError → String
  | .transport => "transport"
  | .protocol => "protocol"
  | .timeout => "timeout"
  | .toolError => "tool_error"
  | .auth => "auth"

inductive OrchdMcpError
  | consentRequired
  | serverDisabled
  | toolDisabled
  | policyCapExceeded (reason : String)
  | mcp (error : McpError)
  | secret (message : String)
  | persist (error : OrchdPersistError)
  /-- A connector's own failure, by its kind. -/
  | adapter (kind : String)
  deriving DecidableEq, Repr

/-- `classify_run_error`. -/
def OrchdMcpError.runKind : OrchdMcpError → String
  | .policyCapExceeded _ => "policy_cap_exceeded"
  | .serverDisabled => "server_disabled"
  | .toolDisabled => "tool_disabled"
  | .consentRequired => "consent_required"
  | .mcp error => error.kind
  | .adapter kind => kind
  | .secret _ => "secret_error"
  | .persist _ => "internal_error"

/-- What an `McpCallTool` asks for. -/
structure ToolCall where
  serverId : String
  toolName : String
  argsJson : String
  projectId : Option String
  deriving DecidableEq, Repr

structure ConnectorCall where
  accountId : String
  op : String
  argsJson : String
  projectId : Option String
  deriving DecidableEq, Repr

inductive Job
  | call (c : ToolCall)
  | invoke (c : ConnectorCall)
  /-- `run_research`, in the background. -/
  | research (runId : String) (c : ToolCall)
  | connect (serverId : String)
  deriving DecidableEq, Repr

namespace Job

def toolCall? : Job → Option ToolCall
  | call c => some c
  | research _ c => some c
  | _ => none

/-- The project and the server a job's policy is looked up by, if it is under one. -/
def policyRefs : Job → Option (Option String × Option String)
  | call c => some (c.projectId, some c.serverId)
  | research _ c => some (c.projectId, some c.serverId)
  | invoke c => some (c.projectId, none)
  | connect _ => none

/-- Whether the dispatch arm of a job takes its policy's mutex. -/
def guarded : Job → Bool
  | call _ => true
  | invoke _ => true
  | _ => false

end Job

/-- What a job has been let out with: a server's row and its bearer, or a connector's account. -/
inductive Pass
  | server (row : McpServerRow) (bearer : Option String)
  | account (row : AccountRow)

inductive Pc
  | start
  /-- `policy_cap_guard` has the key, and waits for its mutex. -/
  | waiting (key : String)
  | ready
  /-- Phase 1 has let it through. -/
  | admitted (pass : Pass)
  | dialing
  /-- A run's call is over, its row is not settled yet. -/
  | called (result : Except OrchdMcpError (String × String))
  | over (error : Option OrchdMcpError)

/-- A request on its way. No step reads `under` and `startedAt`. -/
structure Task where
  job : Job
  pc : Pc
  /-- The key whose mutex it holds. -/
  guard : Option String
  /-- The policy in force for it when it was let through. -/
  under : Option Policy
  startedAt : Option ℤ

/-- A call of `connect_fn`. -/
structure Dial where
  task : ℕ
  server : McpServerRow
  bearer : Option String
  deriving DecidableEq

def Pass.dials (task : ℕ) : Pass → List Dial
  | .server row bearer => [⟨task, row, bearer⟩]
  | .account _ => []

structure ExtSys where
  ext : ExtStore
  /-- What the keychain answers. -/
  secrets : SecretRef → Except String (List UInt8)
  /-- The file a command resolves to. -/
  binary : String → Option (List UInt8)
  clock : ℤ
  tasks : List Task
  dials : List Dial
  /-- The bearers that were looked up. -/
  secretsRead : List SecretRef

/-! ### Phase 1 -/

def resolveBearer (secrets : SecretRef → Except String (List UInt8)) (server : McpServerRow) :
    Except String (Option String) :=
  if server.authKind ≠ .bearer then .ok none
  else match secrets (mcpBearerRef server.id) with
    | .error e => .error e
    | .ok bytes =>
      match String.fromUTF8? ⟨bytes.toArray⟩ with
      | some token => .ok (some token)
      | none => .error "stored bearer is not valid utf-8"

structure PhaseOne where
  ext : ExtStore
  secretsRead : List SecretRef
  answer : Except OrchdMcpError Pass

def refused (e : ExtStore) (error : OrchdMcpError) : PhaseOne := ⟨e, [], .error error⟩

section PhaseOne

variable (host : ExtHost) (sys : ExtSys)

/-- The gate of a connect, which a call comes to after its own. -/
def connectPhase (e : ExtStore) (server : McpServerRow) (auditId : String) : PhaseOne :=
  match e.authorize host (connectAction host sys.binary server) auditId sys.clock with
  | .error error => refused e (.persist error)
  | .ok (e, .deny _) => refused e .consentRequired
  | .ok (e, .allow) =>
    let read := if server.authKind = .bearer then [mcpBearerRef server.id] else []
    ⟨e, read, (resolveBearer sys.secrets server).map (.server server) |>.mapError .secret⟩

/-- A server that is switched off is denied before anything else. -/
def withEnabled (serverId : String) (projectId : McpServerRow → Option String) (auditId : String)
    (k : McpServerRow → PhaseOne) : PhaseOne :=
  match sys.ext.getMcpServer serverId with
  | .error error => refused sys.ext (.persist error)
  | .ok server =>
    if server.enabled then k server
    else match sys.ext.auditServerDisabled server.id (projectId server) auditId sys.clock with
      | .error error => refused sys.ext (.persist error)
      | .ok e => refused e .serverDisabled

def connectPhaseOne (serverId auditId : String) : PhaseOne :=
  withEnabled sys serverId (·.projectId) auditId fun server =>
    connectPhase host sys sys.ext server auditId

def callPhaseOne (c : ToolCall) (auditId connectAuditId : String) : PhaseOne :=
  withEnabled sys c.serverId (fun _ => c.projectId) auditId fun server =>
    match sys.ext.authorize host (.toolCall server.id c.toolName c.projectId) auditId sys.clock with
    | .error error => refused sys.ext (.persist error)
    | .ok (e, .deny reason) =>
      refused e (if reason = reasonToolDisabled then .toolDisabled else .policyCapExceeded reason)
    | .ok (e, .allow) => connectPhase host sys e server connectAuditId

def invokePhaseOne (c : ConnectorCall) (auditId : String) : PhaseOne :=
  match sys.ext.accounts.lookup c.accountId with
  | none => refused sys.ext (.persist .notFound)
  | some account =>
    match sys.ext.authorize host (.connectorInvoke c.accountId c.op c.projectId) auditId
        sys.clock with
    | .error error => refused sys.ext (.persist error)
    | .ok (e, .deny reason) => refused e (.policyCapExceeded reason)
    | .ok (e, .allow) => ⟨e, [], .ok (.account account)⟩

def Job.phaseOne (auditId connectAuditId : String) : Job → PhaseOne
  | .call c => callPhaseOne host sys c auditId connectAuditId
  | .research _ c => callPhaseOne host sys c auditId connectAuditId
  | .invoke c => invokePhaseOne host sys c auditId
  | .connect serverId => connectPhaseOne host sys serverId auditId

end PhaseOne

/-! ### Phase 3 -/

structure CallAnswer where
  id : String
  artifactId : String
  latencyMs : ℤ
  costUsd : Option F64
  inputTokens : Option ℤ
  outputTokens : Option ℤ
  /-- The kind of the failure, if it has failed. -/
  error : Option OrchdMcpError

inductive Answer
  /-- The tools a server lists. -/
  | tools (tools : List NewMcpTool) (draw : ℕ → String)
  | noTools (error : McpError)
  | call (answer : CallAnswer)

namespace ExtStore

/-- `insert_invocation`, with the table's check and its foreign keys. -/
def insertInvocation (e : ExtStore) (x : McpInvocation) : Except OrchdPersistError ExtStore :=
  if x.serverId.isSome = x.accountId.isSome then .error (.sql "CHECK constraint failed")
  else if !(x.serverId.all (fun id => (e.servers.lookup id).isSome)
      && x.accountId.all fun id => (e.accounts.lookup id).isSome) then
    .error (.sql "FOREIGN KEY constraint failed")
  else match e.invocations.insert x with
    | some t => .ok { e with invocations := t }
    | none => .error (.sql "UNIQUE constraint failed: mcp_invocation.id")

end ExtStore

def Job.invocation (host : ExtHost) (startedAt : ℤ) (a : CallAnswer) : Job → Option McpInvocation
  | .call c | .research _ c => some ⟨a.id, some c.serverId, none, c.toolName, c.projectId,
      host.sha256Hex c.argsJson.toUTF8.toList, a.error.isNone, a.error.map OrchdMcpError.runKind,
      a.latencyMs, a.costUsd, a.inputTokens, a.outputTokens, startedAt⟩
  | .invoke c => some ⟨a.id, none, some c.accountId, c.op, c.projectId,
      host.sha256Hex c.argsJson.toUTF8.toList, a.error.isNone, a.error.map OrchdMcpError.runKind,
      a.latencyMs, none, none, none, startedAt⟩
  | .connect _ => none

/-! ### Steps -/

inductive ExtAction
  /-- The domain's verbs leave its tables as they like. -/
  | domain (s : Store)
  | tick (ms : ℕ)
  | editBinary (binary : String → Option (List UInt8))
  | editSecrets (secrets : SecretRef → Except String (List UInt8))
  | addServer (new : NewMcpServer) (id : String)
  | updateServer (id : String) (patch : McpServerPatch)
  | setServerEnabled (id : String) (enabled : Bool)
  | setSecretRef (id secretRef : String)
  | deleteServer (id : String)
  | addAccount (row : AccountRow)
  | deleteAccount (id : String)
  | setToolEnabled (toolId : String) (enabled : Bool)
  | grantConsent (serverId kind id auditId : String)
  | revokeConsent (serverId auditId : String)
  | setPolicy (scope : PolicyScope) (refId : Option String) (spendCapUsd : Option F64)
      (ratePerMin : Option ℤ) (id : String)
  | request (job : Job)
  | startRun (ideaId serverId toolName argsJson id : String)
  | resolveKey (i : ℕ)
  | lock (i : ℕ)
  | setRunning (i : ℕ)
  | authorize (i : ℕ) (auditId connectAuditId : String)
  | dial (i : ℕ)
  | answer (i : ℕ) (a : Answer)
  | settle (i : ℕ)

/-- A task whose request is over has dropped its mutex; a run still has its row to settle. -/
def Task.finish (t : Task) (r : Except OrchdMcpError (String × String)) : Task :=
  match t.job with
  | .research _ _ => { t with pc := .called r, guard := none }
  | _ => { t with pc := .over (match r with | .ok _ => none | .error e => some e), guard := none }

def Job.args : Job → Option (String × OrchdMcpError)
  | .call c | .research _ c => some (c.argsJson, .mcp .protocol)
  | .invoke c => some (c.argsJson, .adapter "invalid_args")
  | .connect _ => none

namespace ExtSys

variable (host : ExtHost) (s : ExtSys)

/-- A verb that is refused changes nothing. -/
def verb (r : Except OrchdPersistError ExtStore) : Option ExtSys :=
  some { s with ext := r.toOption.getD s.ext }

def setTask (i : ℕ) (t : Task) : ExtSys := { s with tasks := s.tasks.set i t }

/-- A connect has no policy to wait for. -/
def spawn (job : Job) : ExtSys :=
  let pc := match job with | .connect _ => .ready | _ => .start
  { s with tasks := s.tasks ++ [⟨job, pc, none, none, none⟩] }

/-- `TrustGrantConsent`: the grant stays when its audit row does not go in. -/
def grantConsent (serverId kind id auditId : String) : Except OrchdPersistError ExtStore := do
  let server ← s.ext.getMcpServer serverId
  let fingerprint := fingerprintFor host s.binary server kind
  let e ← s.ext.grantConsent serverId kind fingerprint id s.clock
  return (e.insertAudit ⟨auditId, s.clock, .consentGrant, some serverId, some kind,
    server.projectId, .allow, none⟩).toOption.getD e

def revokeConsent (serverId auditId : String) : ExtStore :=
  let e := s.ext.deleteConsents serverId
  let projectId := (s.ext.servers.lookup serverId).bind (·.projectId)
  (e.insertAudit ⟨auditId, s.clock, .consentRevoke, some serverId, none, projectId, .allow,
    none⟩).toOption.getD e

/-- `start_run`: the run's row, and the task that drives it. -/
def startRun (ideaId serverId toolName argsJson id : String) : ExtSys :=
  match s.ext.startResearchRun ideaId serverId toolName argsJson id s.clock with
  | .error _ => s
  | .ok (e, row) =>
    let projectId := (e.domain.ideas.lookup ideaId).bind Idea.projectId
    { s with ext := e }.spawn (.research row.id ⟨serverId, toolName, argsJson, projectId⟩)

/-- `policy_cap_guard`, up to the wait. -/
def resolveKey (i : ℕ) : Option ExtSys := do
  let t ← s.tasks[i]?
  let (projectId, serverId) ← t.job.policyRefs
  match t.pc, t.job.guarded with
  | .start, true =>
    match s.ext.resolvePolicyKey projectId serverId with
    | none => return s.setTask i { t with pc := .ready }
    | some key => return s.setTask i { t with pc := .waiting key }
  | _, _ => none

/-- `policy_cap_guard`, when the mutex is free. -/
def lock (i : ℕ) : Option ExtSys := do
  let t ← s.tasks[i]?
  match t.pc with
  | .waiting key =>
    if s.tasks.any fun u => u.guard == some key then none
    else return s.setTask i { t with pc := .ready, guard := some key }
  | _ => none

/-- The first phase of `run_research`: a run whose row is gone ends here. -/
def setRunning (i : ℕ) : Option ExtSys := do
  let t ← s.tasks[i]?
  match t.job, t.pc with
  | .research runId _, .start =>
    match s.ext.setResearchRunRunning runId s.clock with
    | .ok e => return { s with ext := e }.setTask i { t with pc := .ready }
    | .error error => return s.setTask i { t with pc := .over (some (.persist error)) }
  | _, _ => none

def authorize (i : ℕ) (auditId connectAuditId : String) : Option ExtSys := do
  let t ← s.tasks[i]?
  match t.pc with
  | .ready =>
    let r := t.job.phaseOne host s auditId connectAuditId
    let s' := { s with ext := r.ext, secretsRead := s.secretsRead ++ r.secretsRead }
    match r.answer with
    | .error e => return s'.setTask i (t.finish (.error e))
    | .ok pass =>
      let policy := t.job.policyRefs.bind fun (projectId, serverId) =>
        s.ext.resolvePolicy projectId serverId
      return s'.setTask i { t with pc := .admitted pass, under := policy }
  | _ => none

/-- The arguments are parsed, the attempt is started and its peer is dialed. -/
def dial (i : ℕ) : Option ExtSys := do
  let t ← s.tasks[i]?
  match t.pc with
  | .admitted pass =>
    let dials := s.dials ++ pass.dials i
    match t.job.args with
    | some (argsJson, error) =>
      if host.parsesJson argsJson then
        return { s with dials := dials }.setTask i
          { t with pc := .dialing, startedAt := some s.clock }
      else return s.setTask i (t.finish (.error error))
    | none => return { s with dials := dials }.setTask i { t with pc := .dialing }
  | _ => none

def answer (i : ℕ) (a : Answer) : Option ExtSys := do
  let t ← s.tasks[i]?
  match t.pc, t.job, a with
  | .dialing, .connect serverId, .tools tools draw =>
    match s.ext.upsertMcpTools serverId tools draw s.clock with
    | .ok e => return { s with ext := e }.setTask i (t.finish (.ok ("", "")))
    | .error error => return s.setTask i (t.finish (.error (.persist error)))
  | .dialing, .connect _, .noTools error => return s.setTask i (t.finish (.error (.mcp error)))
  | .dialing, job, .call a =>
    let startedAt ← t.startedAt
    let row ← job.invocation host startedAt a
    match s.ext.insertInvocation row with
    | .error error => return s.setTask i (t.finish (.error (.persist error)))
    | .ok e =>
      let r := match a.error with
        | none => .ok (a.id, a.artifactId)
        | some error => .error error
      return { s with ext := e }.setTask i (t.finish r)
  | _, _, _ => none

/-- The last phase of `run_research`. -/
def settle (i : ℕ) : Option ExtSys := do
  let t ← s.tasks[i]?
  match t.job, t.pc with
  | .research runId _, .called r =>
    let (e, error) := match r with
      | .ok (invocationId, artifactId) =>
        (s.ext.setResearchRunDone runId invocationId artifactId s.clock, none)
      | .error error => (s.ext.setResearchRunFailed runId error.runKind s.clock, some error)
    return { s with ext := e.toOption.getD s.ext }.setTask i { t with pc := .over error }
  | _, _ => none

def step (s : ExtSys) : ExtAction → Option ExtSys
  | .domain d => some { s with ext := { s.ext with
      domain := d, runs := s.ext.runs.keep fun r => (d.ideas.lookup r.ideaId).isSome } }
  | .tick ms => some { s with clock := s.clock + ms }
  | .editBinary binary => some { s with binary := binary }
  | .editSecrets secrets => some { s with secrets := secrets }
  | .addServer new id => s.verb ((·.1) <$> s.ext.addMcpServer new id s.clock)
  | .updateServer id patch => s.verb ((·.1) <$> s.ext.updateMcpServer id patch s.clock)
  | .setServerEnabled id enabled =>
    s.verb ((·.1) <$> s.ext.setMcpServerEnabled id enabled s.clock)
  | .setSecretRef id secretRef =>
    s.verb ((·.1) <$> s.ext.setMcpServerSecretRef id secretRef s.clock)
  | .deleteServer id => s.verb (s.ext.deleteMcpServer id)
  | .addAccount row => s.verb (s.ext.insertAccount row)
  | .deleteAccount id => s.verb (.ok (s.ext.eraseAccount id))
  | .setToolEnabled toolId enabled => s.verb ((·.1) <$> s.ext.setMcpToolEnabled toolId enabled)
  | .grantConsent serverId kind id auditId => s.verb (s.grantConsent host serverId kind id auditId)
  | .revokeConsent serverId auditId => some { s with ext := s.revokeConsent serverId auditId }
  | .setPolicy scope refId spendCapUsd ratePerMin id =>
    s.verb ((·.1) <$> s.ext.upsertPolicy scope refId spendCapUsd ratePerMin id s.clock)
  | .request (.research _ _) => none
  | .request job => some (s.spawn job)
  | .startRun ideaId serverId toolName argsJson id =>
    some (s.startRun ideaId serverId toolName argsJson id)
  | .resolveKey i => s.resolveKey i
  | .lock i => s.lock i
  | .setRunning i => s.setRunning i
  | .authorize i auditId connectAuditId => s.authorize host i auditId connectAuditId
  | .dial i => s.dial host i
  | .answer i a => s.answer host i a
  | .settle i => s.settle i

def Idle : Prop := s.tasks = [] ∧ s.dials = [] ∧ s.secretsRead = []

def fresh : ExtSys := ⟨.empty, fun _ => .error "no such entry", fun _ => none, 0, [], [], []⟩

end ExtSys

/-- A host that is asked about the empty object alone. -/
def plainExtHost : ExtHost where
  sha256Hex _ := "44136fa355b3678a1146ad16f7e8649e94fb4fc21fe77e8310c060f61caaff8a"
  sumCost _ := .finite 0
  parsesJson text := text == "\x7b\x7d"

end BuilderPro
