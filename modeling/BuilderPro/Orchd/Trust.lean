import BuilderPro.Orchd.Mcp

/-!
# The trust gate

`trust.rs`: every connect and every call is decided here, and each decision is in the audit log.
-/

namespace BuilderPro

/-- What the host brings to the gate: SHA-256, the sum of a `REAL` column, and what it parses. -/
structure ExtHost where
  sha256Hex : List UInt8 → String
  sumCost : List F64 → F64
  /-- Whether a text is JSON. -/
  parsesJson : String → Bool

def consentKindConnect : String := "connect"

def consentKindStdioExec : String := "stdio_exec"

/-! ### Fingerprints -/

section Fingerprint

variable (host : ExtHost) (binary : String → Option (List UInt8))

/-- `canonical_stdio_invocation`. -/
def canonicalStdioInvocation (command : String) (args : List String) (env : EnvMap) : List UInt8 :=
  command.toUTF8.toList ++ args.flatMap (fun a => 0 :: a.toUTF8.toList)
    ++ env.entries.flatMap fun (k, v) => 0 :: k.toUTF8.toList ++ 1 :: v.toUTF8.toList

/-- `stdio_exec_fingerprint`, of the binary a command resolves to. -/
def stdioExecFingerprint (command : String) (args : List String) (env : EnvMap) : String :=
  let invocation := host.sha256Hex (canonicalStdioInvocation command args env)
  match binary command with
  | some bytes => "bin:" ++ host.sha256Hex bytes ++ ":" ++ invocation
  | none => "cmd:" ++ invocation

/-- `fingerprint_for`. -/
def fingerprintFor (server : McpServerRow) (kind : String) : String :=
  if kind = consentKindStdioExec then
    stdioExecFingerprint host binary (server.command.getD "") server.args server.env
  else server.url.getD ""

end Fingerprint

inductive Action
  | connect (serverId fingerprint : String)
  | stdioSpawn (serverId fingerprint : String)
  | toolCall (serverId toolName : String) (projectId : Option String)
  | connectorInvoke (accountId op : String) (projectId : Option String)
  deriving DecidableEq, Repr

inductive Decision
  | allow
  | deny (reason : String)
  deriving DecidableEq, Repr

/-- `connect_action`. -/
def connectAction (host : ExtHost) (binary : String → Option (List UInt8))
    (server : McpServerRow) : Action :=
  match server.transport with
  | .http => .connect server.id (fingerprintFor host binary server consentKindConnect)
  | .stdio => .stdioSpawn server.id (fingerprintFor host binary server consentKindStdioExec)

def reasonConsentRequired : String := "consent_required"

def reasonStdioExecRequired : String := "stdio_exec_required"

def reasonToolDisabled : String := "tool_disabled"

def reasonRateLimitExceeded : String := "rate_limit_exceeded"

def reasonSpendCapExceeded : String := "spend_cap_exceeded"

def reasonServerDisabled : String := "server_disabled"

/-- `POLICY_WINDOW_MS`. -/
def policyWindowMs : ℤ := 60000

/-- `spent >= cap`. -/
def F64.ge (spent cap : F64) : Bool := cap != .nan && spent != .nan && cap.le spent

namespace ExtStore

variable (host : ExtHost) (e : ExtStore)

/-! ### Consents -/

def getConsent (serverId kind : String) : Option ConsentRow := e.consents.lookup (serverId, kind)

/-- `grant_consent`: a new grant of a kind takes the place of the old one. -/
def grantConsent (serverId kind fingerprint id : String) (now : ℤ) :
    Except OrchdPersistError ExtStore := do
  let _ ← e.activeServer serverId
  match e.getConsent serverId kind with
  | some c =>
    let c : ConsentRow := { c with fingerprint := fingerprint, grantedAt := now }
    return { e with consents := e.consents.replace c }
  | none =>
    match e.consents.insert ⟨id, kind, serverId, fingerprint, now⟩ with
    | some t => return { e with consents := t }
    | none => throw (.sql "UNIQUE constraint failed: consent_grant")

/-! ### Policies -/

/-- `get_policy`. -/
def getPolicy (scope : PolicyScope) (refId : Option String) : Option Policy :=
  e.policies.lookup (scope, refId)

/-- What a policy refers to is there, and its project active. -/
def ensurePolicyRef (scope : PolicyScope) (refId : Option String) : Except OrchdPersistError Unit :=
  match scope, refId with
  | .global, some _ => .error (.validation "policy.ref_id must be omitted for scope 'global'")
  | .global, none => .ok ()
  | .project, none | .server, none =>
    .error (.validation "policy.ref_id is required for scope 'project'/'server'")
  | .project, some pid => e.domain.ensureProjectActive pid
  | .server, some sid => do
    let _ ← e.activeServer sid
    return ()

def upsertPolicy (scope : PolicyScope) (refId : Option String) (spendCapUsd : Option F64)
    (ratePerMin : Option ℤ) (id : String) (now : ℤ) :
    Except OrchdPersistError (ExtStore × Policy) := do
  e.ensurePolicyRef scope refId
  match e.getPolicy scope refId with
  | some p =>
    let q : Policy :=
      { p with spendCapUsd := spendCapUsd, ratePerMin := ratePerMin, updatedAt := now }
    return ({ e with policies := e.policies.replace q }, q)
  | none =>
    let q : Policy := ⟨id, scope, refId, spendCapUsd, ratePerMin, now, now⟩
    match e.policies.insert q with
    | some t => return ({ e with policies := t }, q)
    | none => throw (.sql "UNIQUE constraint failed: policy.id")

/-- `resolve_policy`: a server's policy goes before a project's, and both before the global one. -/
def resolvePolicy (projectId serverId : Option String) : Option Policy :=
  (serverId.bind fun sid => e.getPolicy .server (some sid)).orElse fun _ =>
    (projectId.bind fun pid => e.getPolicy .project (some pid)).orElse fun _ =>
      e.getPolicy .global none

/-- `resolve_policy_key`. -/
def resolvePolicyKey (projectId serverId : Option String) : Option String :=
  (e.resolvePolicy projectId serverId).map fun p =>
    (match p.scope with
      | .global => "global"
      | .project => "project"
      | .server => "server") ++ ":" ++ p.refId.getD ""

end ExtStore

/-- Whether an invocation is one a policy of a scope counts. -/
def McpInvocation.inScope (scope : PolicyScope) (refId : Option String) (i : McpInvocation) :
    Bool :=
  match scope with
  | .global => true
  | .project => refId.isSome && i.projectId == refId
  | .server => refId.isSome && i.serverId == refId

namespace ExtStore

variable (host : ExtHost) (e : ExtStore)

/-- `count_invocations_since`. -/
def countInvocationsSince (scope : PolicyScope) (refId : Option String) (sinceMs : ℤ) : ℕ :=
  e.invocations.rows.countP fun i => i.inScope scope refId && sinceMs ≤ i.startedAt

/-- `sum_cost_since`. -/
def sumCostSince (scope : PolicyScope) (refId : Option String) (sinceMs : ℤ) : F64 :=
  host.sumCost ((e.invocations.rows.filter fun i =>
    i.inScope scope refId && sinceMs ≤ i.startedAt).filterMap McpInvocation.costUsd)

/-- `check_policy_caps`: the rate before the spend. -/
def checkPolicyCaps (projectId serverId : Option String) (now : ℤ) : Decision :=
  match e.resolvePolicy projectId serverId with
  | none => .allow
  | some p =>
    let since := now - policyWindowMs
    if p.ratePerMin.any fun r => r ≤ (e.countInvocationsSince p.scope p.refId since : ℤ) then
      .deny reasonRateLimitExceeded
    else if p.spendCapUsd.any fun cap => (e.sumCostSince host p.scope p.refId since).ge cap then
      .deny reasonSpendCapExceeded
    else .allow

/-! ### The gate -/

/-- Whether a grant of a kind is for a fingerprint. -/
def consentHolds (serverId kind fingerprint : String) : Bool :=
  (e.getConsent serverId kind).any fun c => c.fingerprint == fingerprint

def evaluate (now : ℤ) : Action → Decision
  | .connect serverId fingerprint =>
    if e.consentHolds serverId consentKindConnect fingerprint then .allow
    else .deny reasonConsentRequired
  | .stdioSpawn serverId fingerprint =>
    if e.consentHolds serverId consentKindStdioExec fingerprint then .allow
    else .deny reasonStdioExecRequired
  | .toolCall serverId toolName projectId =>
    if (e.listMcpTools serverId).any fun t => t.name == toolName && t.enabled then
      e.checkPolicyCaps host projectId (some serverId) now
    else .deny reasonToolDisabled
  | .connectorInvoke _ _ projectId => e.checkPolicyCaps host projectId none now

end ExtStore

/-- The row `write_audit` appends: a cap that has been met is logged as a policy's denial. -/
def auditRow (action : Action) (decision : Decision) (id : String) (now : ℤ) : AuditRow :=
  let (auditAction, serverId, toolName, projectId) := match action with
    | .connect serverId _ => (AuditAction.connect, serverId, none, none)
    | .stdioSpawn serverId _ => (.stdioSpawn, serverId, none, none)
    | .toolCall serverId toolName projectId => (.toolCall, serverId, some toolName, projectId)
    | .connectorInvoke accountId op projectId => (.connectorInvoke, accountId, some op, projectId)
  match decision with
  | .allow => ⟨id, now, auditAction, some serverId, toolName, projectId, .allow, none⟩
  | .deny reason =>
    let auditAction := if reason = reasonRateLimitExceeded ∨ reason = reasonSpendCapExceeded then
      .policyDeny else auditAction
    ⟨id, now, auditAction, some serverId, toolName, projectId, .deny, some reason⟩

namespace ExtStore

variable (host : ExtHost) (e : ExtStore)

/-- `insert_audit`. -/
def insertAudit (x : AuditRow) : Except OrchdPersistError ExtStore :=
  match e.audit.insert x with
  | some t => .ok { e with audit := t }
  | none => .error (.sql "UNIQUE constraint failed: audit_log.id")

/-- `authorize`: no decision is seen that is not in the audit log. -/
def authorize (action : Action) (id : String) (now : ℤ) :
    Except OrchdPersistError (ExtStore × Decision) := do
  let decision := e.evaluate host now action
  let e ← e.insertAudit (auditRow action decision id now)
  return (e, decision)

/-- `audit_server_disabled`. -/
def auditServerDisabled (serverId : String) (projectId : Option String) (id : String) (now : ℤ) :
    Except OrchdPersistError ExtStore :=
  e.insertAudit
    ⟨id, now, .policyDeny, some serverId, none, projectId, .deny, some reasonServerDisabled⟩

end ExtStore

end BuilderPro
