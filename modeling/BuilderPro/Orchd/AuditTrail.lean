import BuilderPro.Orchd.Egress
import BuilderPro.Orchd.RateCap

/-!
# The audit trail

Rows are only added to the audit log, whatever is deleted from the tables it is about.  A dial of a
server, and a call that has been written down, has a row of its own there that allowed it: along
every run there are never more dials of a server than its allowed connects, and never more calls of
a tool or of a connector's operation than its allowed calls (`audit_trail`).
-/

namespace BuilderPro

open Results

/-- What an audit row is about. -/
structure AuditKey where
  action : AuditAction
  refId : String
  toolName : Option String
  projectId : Option String
  deriving DecidableEq

def AuditRow.auditKey? (x : AuditRow) : Option AuditKey :=
  x.serverId.map fun refId => ⟨x.action, refId, x.toolName, x.projectId⟩

/-- Whether a row has allowed what a key says. -/
def AuditRow.allows (k : AuditKey) (x : AuditRow) : Bool :=
  x.decision = .allow && x.auditKey? = some k

def Action.auditKey : Action → AuditKey
  | .connect serverId _ => ⟨.connect, serverId, none, none⟩
  | .stdioSpawn serverId _ => ⟨.stdioSpawn, serverId, none, none⟩
  | .toolCall serverId toolName projectId => ⟨.toolCall, serverId, some toolName, projectId⟩
  | .connectorInvoke accountId op projectId => ⟨.connectorInvoke, accountId, some op, projectId⟩

/-- What allows a server to be dialed. -/
def McpServerRow.dialKey (server : McpServerRow) : AuditKey :=
  match server.transport with
  | .http => ⟨.connect, server.id, none, none⟩
  | .stdio => ⟨.stdioSpawn, server.id, none, none⟩

def Pass.dialKey? : Pass → Option AuditKey
  | .server row _ => some row.dialKey
  | .account _ => none

/-- What allows the call a job makes. -/
def Job.callKey? : Job → Option AuditKey
  | .call c | .research _ c => some ⟨.toolCall, c.serverId, some c.toolName, c.projectId⟩
  | .invoke c => some ⟨.connectorInvoke, c.accountId, some c.op, c.projectId⟩
  | .connect _ => none

/-- What has allowed the call of an invocation's row. -/
def McpInvocation.callKey? (i : McpInvocation) : Option AuditKey :=
  match i.serverId, i.accountId with
  | some serverId, _ => some ⟨.toolCall, serverId, some i.toolName, i.projectId⟩
  | none, some accountId => some ⟨.connectorInvoke, accountId, some i.toolName, i.projectId⟩
  | none, none => none

/-- A task that is let through has its server still to dial. -/
def Task.toDial (k : AuditKey) (t : Task) : Bool :=
  match t.pc with
  | .admitted pass => pass.dialKey? = some k
  | _ => false

/-- A task that is let through has its call still to write down. -/
def Task.toWrite (k : AuditKey) (t : Task) : Bool := t.pc.inFlight && t.job.callKey? = some k

namespace ExtSys

variable (s : ExtSys) (k : AuditKey)

def allowed : ℕ := s.ext.audit.rows.countP (AuditRow.allows k)

/-- The dials and the calls that were made with what a key says. -/
def uses : ℕ :=
  s.dials.countP (fun d => d.server.dialKey = k)
    + s.ext.invocations.rows.countP fun i => i.callKey? = some k

/-- The dials and the calls that tasks have been let through to make. -/
def owed : ℕ := s.tasks.countP (Task.toDial k) + s.tasks.countP (Task.toWrite k)

def Accounted : Prop := ∀ k, s.uses k + s.owed k ≤ s.allowed k

end ExtSys

/-! ### The log -/

/-- A store that has the audit rows of another, and no invocations but its own. -/
structure ExtStore.Trails (e e' : ExtStore) : Prop where
  audit : e.audit.rows <+: e'.audit.rows
  invocations : e'.invocations.rows.Sublist e.invocations.rows

namespace ExtStore

variable {e e' : ExtStore}

theorem Trails.refl (e : ExtStore) : e.Trails e := ⟨List.prefix_refl _, List.Sublist.refl _⟩

theorem Trails.trans {e'' : ExtStore} (h : e.Trails e') (h' : e'.Trails e'') : e.Trails e'' :=
  ⟨h.audit.trans h'.audit, h'.invocations.trans h.invocations⟩

/-- What neither table is part of. -/
theorem trails_of_eq (ha : e'.audit = e.audit) (hi : e'.invocations = e.invocations) :
    e.Trails e' :=
  ⟨by rw [ha], by rw [hi]⟩

theorem trails_insertAudit {x : AuditRow} (h : e.insertAudit x = .ok e') : e.Trails e' := by
  obtain ⟨t, ht, rfl⟩ := insertAudit_eq_ok h
  exact ⟨by rw [(KeyedTable.insert_eq_some.1 ht).2]; exact List.prefix_append _ _,
    List.Sublist.refl _⟩

theorem trails_getD_insertAudit (h : e.Trails e') (x : AuditRow) :
    e.Trails ((e'.insertAudit x).toOption.getD e') := by
  rcases hx : e'.insertAudit x with _ | e''
  · exact h
  · exact h.trans (trails_insertAudit hx)

theorem auditKey_auditRow (action : Action) (id : String) (now : ℤ) :
    (auditRow action .allow id now).auditKey? = some action.auditKey := by
  cases action <;> rfl

theorem decision_auditRow (action : Action) (id : String) (now : ℤ) :
    (auditRow action .allow id now).decision = .allow := by
  cases action <;> rfl

/-- A decision is one row more, and an allowed one counts for what it is about. -/
theorem countP_authorize {host : ExtHost} {action : Action} {id : String} {now : ℤ}
    (h : e.authorize host action id now = .ok (e', .allow)) (k : AuditKey) :
    e'.audit.rows.countP (AuditRow.allows k) =
      e.audit.rows.countP (AuditRow.allows k) + if some action.auditKey = some k then 1 else 0 := by
  obtain ⟨-, t, ht, he⟩ := authorize_eq_ok h
  dsimp only at ht he
  rw [he, (KeyedTable.insert_eq_some.1 ht).2, List.countP_append, List.countP_singleton,
    AuditRow.allows, auditKey_auditRow, decision_auditRow]
  by_cases hk : some action.auditKey = some k <;> simp [hk]

theorem trails_authorize {host : ExtHost} {action : Action} {id : String} {now : ℤ}
    {r : ExtStore × Decision} (h : e.authorize host action id now = .ok r) : e.Trails r.1 := by
  simp only [authorize, bind_eq_ok, pure_eq_ok] at h
  obtain ⟨e', he, rfl⟩ := h
  exact trails_insertAudit he

theorem trails_updateRun {id : String} {f : ResearchRunRow → ResearchRunRow}
    (h : e.updateRun id f = .ok e') : e.Trails e' := by
  obtain ⟨t, rfl⟩ := updateRun_eq_ok h
  exact trails_of_eq rfl rfl

theorem trails_getD_updateRun (e : ExtStore) (id : String) (f : ResearchRunRow → ResearchRunRow) :
    e.Trails ((e.updateRun id f).toOption.getD e) := by
  rcases hrun : e.updateRun id f with _ | e'
  · exact .refl _
  · exact trails_updateRun hrun

/-- What refers to a server goes with it, and the audit rows stay. -/
theorem trails_deleteMcpServer {id : String} (h : e.deleteMcpServer id = .ok e') : e.Trails e' := by
  simp only [deleteMcpServer, bind_eq_ok, pure_eq_ok] at h
  obtain ⟨x, -, rfl⟩ := h
  exact ⟨List.prefix_refl _, List.filter_sublist⟩

end ExtStore

/-! ### The gate -/

section PhaseOne

variable {host : ExtHost} {s : ExtSys} {job : Job} {id id' : String} {pass : Pass} (k : AuditKey)

theorem trails_connectPhase (host : ExtHost) (s : ExtSys) (e : ExtStore) (server : McpServerRow)
    (id : String) : e.Trails (connectPhase host s e server id).ext := by
  unfold connectPhase
  split
  · exact .refl _
  · rename_i h
    exact ExtStore.trails_authorize h
  · rename_i h
    exact ExtStore.trails_authorize h

theorem trails_withEnabled {serverId : String} {projectId : McpServerRow → Option String}
    {id : String} {p : McpServerRow → PhaseOne} (hp : ∀ server, s.ext.Trails (p server).ext) :
    s.ext.Trails (withEnabled s serverId projectId id p).ext := by
  unfold withEnabled
  split
  · exact .refl _
  · split_ifs
    · exact hp _
    · split
      · exact .refl _
      · rename_i h
        exact ExtStore.trails_insertAudit h

theorem trails_callPhaseOne (host : ExtHost) (s : ExtSys) (c : ToolCall) (id id' : String) :
    s.ext.Trails (callPhaseOne host s c id id').ext := by
  refine trails_withEnabled fun server => ?_
  split
  · exact .refl _
  · rename_i h
    exact ExtStore.trails_authorize h
  · rename_i h
    exact (ExtStore.trails_authorize h).trans (trails_connectPhase _ _ _ _ _)

theorem trails_phaseOne (host : ExtHost) (s : ExtSys) (job : Job) (id id' : String) :
    s.ext.Trails (job.phaseOne host s id id').ext := by
  rcases job with c | c | ⟨runId, c⟩ | serverId
  · exact trails_callPhaseOne host s c id id'
  · unfold Job.phaseOne invokePhaseOne
    dsimp only
    split
    · exact .refl _
    · split
      · exact .refl _
      all_goals
        rename_i h
        exact ExtStore.trails_authorize h
  · exact trails_callPhaseOne host s c id id'
  · exact trails_withEnabled fun server => trails_connectPhase host s s.ext server id

theorem auditKey_connectAction (host : ExtHost) (binary : String → Option (List UInt8))
    (server : McpServerRow) : (connectAction host binary server).auditKey = server.dialKey := by
  rcases ht : server.transport with _ | _ <;>
    simp [connectAction, McpServerRow.dialKey, ht, Action.auditKey]

theorem countP_connectPhase {e : ExtStore} {server : McpServerRow}
    (h : (connectPhase host s e server id).answer = .ok pass) :
    (connectPhase host s e server id).ext.audit.rows.countP (AuditRow.allows k) =
      e.audit.rows.countP (AuditRow.allows k) + if pass.dialKey? = some k then 1 else 0 := by
  rcases connectPhase_cases host s e server id with ⟨e', error, hp⟩ | ⟨e', hallow, hp⟩
  · rw [hp] at h
    cases h
  · rw [hp] at h ⊢
    obtain ⟨b, -, rfl⟩ := map_eq_ok.1 (mapError_eq_ok.1 h)
    rw [ExtStore.countP_authorize hallow, auditKey_connectAction]
    rfl

theorem countP_callPhaseOne {c : ToolCall} (h : (callPhaseOne host s c id id').answer = .ok pass) :
    (callPhaseOne host s c id id').ext.audit.rows.countP (AuditRow.allows k) =
      s.allowed k + (if pass.dialKey? = some k then 1 else 0)
        + if (Job.call c).callKey? = some k then 1 else 0 := by
  rcases callPhaseOne_cases host s c id id' with
    ⟨e, error, hp⟩ | ⟨server, e, -, -, hallow, hp⟩
  · rw [hp] at h
    cases h
  · rw [hp] at h ⊢
    rw [countP_connectPhase k h, ExtStore.countP_authorize hallow]
    exact Nat.add_right_comm _ _ _

/-- What a job is let through to do, each thing has got its row. -/
theorem countP_phaseOne (h : (job.phaseOne host s id id').answer = .ok pass) :
    (job.phaseOne host s id id').ext.audit.rows.countP (AuditRow.allows k) =
      s.allowed k + (if pass.dialKey? = some k then 1 else 0)
        + if job.callKey? = some k then 1 else 0 := by
  rcases job with c | c | ⟨runId, c⟩ | serverId
  · exact countP_callPhaseOne k h
  · simp only [Job.phaseOne, invokePhaseOne] at h ⊢
    split at h
    · cases h
    · split at h
      · cases h
      · cases h
      · rename_i e hallow
        cases h
        exact ExtStore.countP_authorize hallow k
  · exact countP_callPhaseOne k h
  · simp only [Job.phaseOne, connectPhaseOne] at h ⊢
    rcases @withEnabled_cases s serverId (·.projectId) id
      (fun server => connectPhase host s s.ext server id) with
      ⟨e, error, hp⟩ | ⟨server, -, -, hp⟩
    · rw [hp] at h
      cases h
    · rw [hp] at h ⊢
      exact countP_connectPhase k h

end PhaseOne

/-! ### Steps -/

namespace ExtSys

variable {host : ExtHost} {s s' : ExtSys} {i : ℕ} {t : Task} {k : AuditKey}

theorem verb_trails {r : Except OrchdPersistError ExtStore}
    (hr : ∀ e, r = .ok e → s.ext.Trails e) (h : s.verb r = some s') : s.ext.Trails s'.ext := by
  cases h
  rcases r with _ | e
  · exact .refl _
  · exact hr e rfl

/-- A verb that writes neither of the two tables. -/
theorem map_verb_trails {α : Type} {r : Except OrchdPersistError (ExtStore × α)}
    (hr : ∀ p, r = .ok p → p.1.audit = s.ext.audit ∧ p.1.invocations = s.ext.invocations)
    (h : s.verb ((·.1) <$> r) = some s') : s.ext.Trails s'.ext := by
  refine verb_trails (fun e he => ?_) h
  obtain ⟨p, hp, rfl⟩ := map_eq_ok.1 he
  exact ExtStore.trails_of_eq (hr p hp).1 (hr p hp).2

theorem grantConsent_trails {serverId kind id auditId : String} {e : ExtStore}
    (h : s.grantConsent host serverId kind id auditId = .ok e) : s.ext.Trails e := by
  simp only [grantConsent, bind_eq_ok, pure_eq_ok] at h
  obtain ⟨server, -, e, he, rfl⟩ := h
  obtain ⟨c, rfl⟩ := ExtStore.grantConsent_eq_ok he
  have htrails : s.ext.Trails { s.ext with consents := c } := ExtStore.trails_of_eq rfl rfl
  exact ExtStore.trails_getD_insertAudit htrails _

theorem revokeConsent_trails (serverId auditId : String) :
    s.ext.Trails (s.revokeConsent serverId auditId) :=
  have htrails : s.ext.Trails (s.ext.deleteConsents serverId) := ExtStore.trails_of_eq rfl rfl
  ExtStore.trails_getD_insertAudit htrails _

theorem authorize_trails {id id' : String} (h : s.authorize host i id id' = some s') :
    s.ext.Trails s'.ext := by
  simp only [authorize, Option.bind_eq_bind, Option.bind_eq_some_iff] at h
  obtain ⟨t, -, h⟩ := h
  split at h
  · split at h <;> cases h
    all_goals exact trails_phaseOne host s t.job id id'
  · cases h

/-- What an answer does: the task is over, and the call's row is written down or none is. -/
theorem answer_cases {a : Answer} (h : s.answer host i a = some s') : ∃ t r,
    s.tasks[i]? = some t ∧ t.pc = .dialing ∧ s'.tasks = s.tasks.set i (t.finish r)
      ∧ s'.dials = s.dials ∧ (s.ext.Trails s'.ext ∨ ∃ startedAt c row,
        t.job.invocation host startedAt c = some row
          ∧ s.ext.insertInvocation row = .ok s'.ext) := by
  simp only [answer, Option.bind_eq_bind, Option.bind_eq_some_iff] at h
  obtain ⟨t, hi, h⟩ := h
  refine ⟨t, ?_⟩
  split at h
  · rename_i hpc hjob
    split at h <;> rename_i he <;> cases h
    · obtain ⟨u, -, rfl⟩ := ExtStore.upsertMcpTools_eq_ok he
      exact ⟨_, hi, hpc, rfl, rfl, .inl (ExtStore.trails_of_eq rfl rfl)⟩
    · exact ⟨_, hi, hpc, rfl, rfl, .inl (.refl _)⟩
  · rename_i hpc hjob
    cases h
    exact ⟨_, hi, hpc, rfl, rfl, .inl (.refl _)⟩
  · rename_i hpc
    rw [Option.bind_eq_some_iff] at h
    obtain ⟨startedAt, -, h⟩ := h
    rw [Option.bind_eq_some_iff] at h
    obtain ⟨row, hrow, h⟩ := h
    split at h <;> rename_i he <;> cases h
    · exact ⟨_, hi, hpc, rfl, rfl, .inl (.refl _)⟩
    · exact ⟨_, hi, hpc, rfl, rfl, .inr ⟨startedAt, _, row, hrow, he⟩⟩
  · cases h

theorem trails_step {a : ExtAction} (h : s.step host a = some s')
    (hanswer : ∀ i c, a ≠ .answer i c) : s.ext.Trails s'.ext := by
  cases a with
  | domain | tick | editBinary | editSecrets =>
    cases h
    exact ExtStore.trails_of_eq rfl rfl
  | addServer new id =>
    refine map_verb_trails (fun p hp => ?_) h
    obtain ⟨x, u, -, hx⟩ := ExtStore.addMcpServer_eq_ok hp
    simp [hx]
  | updateServer =>
    refine map_verb_trails (fun p hp => ?_) h
    obtain ⟨x, c, hx⟩ := ExtStore.updateMcpServer_eq_ok hp
    simp [hx]
  | setServerEnabled =>
    refine map_verb_trails (fun p hp => ?_) h
    obtain ⟨x, hx⟩ := ExtStore.setMcpServerEnabled_eq_ok hp
    simp [hx]
  | setSecretRef =>
    refine map_verb_trails (fun p hp => ?_) h
    obtain ⟨x, hx⟩ := ExtStore.setMcpServerSecretRef_eq_ok hp
    simp [hx]
  | deleteServer id => exact verb_trails (fun _ => ExtStore.trails_deleteMcpServer) h
  | addAccount row =>
    refine verb_trails (fun e he => ?_) h
    obtain ⟨u, -, rfl⟩ := ExtStore.insertAccount_eq_ok he
    exact ExtStore.trails_of_eq rfl rfl
  | deleteAccount id =>
    cases h
    exact ⟨List.prefix_refl _, List.filter_sublist⟩
  | setToolEnabled toolId enabled =>
    refine map_verb_trails (fun p hp => ?_) h
    obtain ⟨-, hx⟩ := ExtStore.setMcpToolEnabled_eq_ok hp
    simp [hx]
  | grantConsent => exact verb_trails (fun _ => grantConsent_trails) h
  | revokeConsent serverId auditId =>
    cases h
    exact revokeConsent_trails serverId auditId
  | setPolicy =>
    refine map_verb_trails (fun p hp => ?_) h
    obtain ⟨u, hx⟩ := ExtStore.upsertPolicy_eq_ok hp
    simp [hx]
  | request job =>
    rcases job with c | c | ⟨runId, c⟩ | serverId <;> cases h
    all_goals exact .refl _
  | startRun ideaId serverId toolName argsJson id =>
    cases h
    unfold startRun
    split
    · exact .refl _
    · rename_i hrun
      obtain ⟨d, u, he⟩ := ExtStore.startResearchRun_eq_ok hrun
      dsimp only at he
      rw [he]
      exact ExtStore.trails_of_eq rfl rfl
  | resolveKey => exact resolveKey_ext h ▸ .refl _
  | lock => exact lock_ext h ▸ .refl _
  | setRunning i =>
    simp only [step, setRunning, Option.bind_eq_bind, Option.bind_eq_some_iff] at h
    obtain ⟨t, -, h⟩ := h
    split at h
    · split at h <;> rename_i hrun <;> cases h
      · exact ExtStore.trails_updateRun hrun
      · exact .refl _
    · cases h
  | authorize => exact authorize_trails h
  | dial => exact dial_ext h ▸ .refl _
  | answer i a => exact absurd rfl (hanswer i a)
  | settle i =>
    simp only [step, settle, Option.bind_eq_bind, Option.bind_eq_some_iff] at h
    obtain ⟨t, -, h⟩ := h
    split at h
    · cases h
      split
      · exact ExtStore.trails_getD_updateRun _ _ _
      · exact ExtStore.trails_getD_updateRun _ _ _
    · cases h

/-! ### Accounts -/

theorem accounted_of_trails (hI : s.Accounted) (ht : s.ext.Trails s'.ext) (hd : s'.dials = s.dials)
    (ho : ∀ k, s'.owed k ≤ s.owed k) : s'.Accounted := by
  intro k
  have hdials : s'.uses k ≤ s.uses k := by
    rw [uses, uses, hd]
    exact Nat.add_le_add_left (ht.invocations.countP_le) _
  have hallowed : s.allowed k ≤ s'.allowed k := ht.audit.sublist.countP_le
  have := hI k
  have := ho k
  omega

/-- A task that is set owes its share in place of the old one's. -/
theorem owed_set {t' : Task} (hi : s.tasks[i]? = some t) (ht : s'.tasks = s.tasks.set i t')
    (k : AuditKey) : s'.owed k + ((t.toDial k).toNat + (t.toWrite k).toNat) =
      s.owed k + ((t'.toDial k).toNat + (t'.toWrite k).toNat) := by
  have hset : ∀ p : Task → Bool,
      s'.tasks.countP p + (p t).toNat = s.tasks.countP p + (p t').toNat := by
    intro p
    obtain ⟨hlt, rfl⟩ := List.getElem?_eq_some_iff.1 hi
    have hle : (if p s.tasks[i] = true then 1 else 0) ≤ s.tasks.countP p :=
      List.boole_getElem_le_countP hlt
    have hnat : ∀ b : Bool, b.toNat = if b = true then 1 else 0 := by decide
    rw [ht, List.countP_set hlt, hnat, hnat]
    omega
  have := hset (Task.toDial k)
  have := hset (Task.toWrite k)
  unfold owed
  omega

/-- A task that is not let through any more owes nothing. -/
theorem owed_set_le {t' : Task} (hi : s.tasks[i]? = some t) (ht : s'.tasks = s.tasks.set i t')
    (hdial : ∀ k, t'.toDial k = false) (hwrite : ∀ k, t'.toWrite k = false) (k : AuditKey) :
    s'.owed k ≤ s.owed k := by
  have := owed_set hi ht k
  simp only [hdial, hwrite, Bool.toNat_false] at this
  omega

theorem toDial_finish (t : Task) (r : Except OrchdMcpError (String × String)) (k : AuditKey) :
    (t.finish r).toDial k = false := by
  unfold Task.toDial
  split
  · rename_i hpc
    exact absurd hpc (ExtSys.finish_pc_ne t r _)
  · rfl

theorem toWrite_finish (t : Task) (r : Except OrchdMcpError (String × String)) (k : AuditKey) :
    (t.finish r).toWrite k = false := by
  simp [Task.toWrite]

theorem callKey?_invocation {job : Job} {startedAt : ℤ} {c : CallAnswer} {row : McpInvocation}
    (h : job.invocation host startedAt c = some row) : row.callKey? = job.callKey? := by
  rcases job with c | c | ⟨runId, c⟩ | serverId <;> cases h <;> rfl

/-- A call that is written down is one less to write. -/
theorem accounted_answer {a : Answer} (hI : s.Accounted) (h : s.answer host i a = some s') :
    s'.Accounted := by
  obtain ⟨t, r, hi, hpc, htasks, hdials, htrails | ⟨startedAt, c, row, hrow, he⟩⟩ := answer_cases h
  · exact accounted_of_trails hI htrails hdials
      (owed_set_le hi htasks (toDial_finish t r) (toWrite_finish t r))
  · intro k
    obtain ⟨u, hu, hext⟩ := ExtStore.insertInvocation_eq_ok he
    have hkey := callKey?_invocation hrow
    have howed := owed_set hi htasks k
    have hk := hI k
    have huses : s'.uses k = s.uses k + (t.toWrite k).toNat := by
      simp only [uses, hdials, hext, (KeyedTable.insert_eq_some.1 hu).2, List.countP_append,
        List.countP_singleton, hkey, Task.toWrite, hpc, Pc.inFlight, Bool.true_and]
      rcases decide (t.job.callKey? = some k) with _ | _
      · rfl
      · simp [Nat.add_assoc]
    have hallowed : s'.allowed k = s.allowed k := by rw [allowed, hext]; rfl
    rw [toDial_finish, toWrite_finish] at howed
    simp only [Bool.toNat_false] at howed
    omega

theorem accounted_step {a : ExtAction} (hI : s.Accounted) (h : s.step host a = some s') :
    s'.Accounted := by
  by_cases hanswer : ∀ i c, a ≠ .answer i c
  swap
  · simp only [not_forall, not_not] at hanswer
    obtain ⟨i, c, rfl⟩ := hanswer
    exact accounted_answer hI h
  have htrails := trails_step h hanswer
  have hset : ∀ {u : ExtSys} {i : ℕ} {t t' : Task}, s' = u.setTask i t' → u.tasks = s.tasks →
      u.dials = s.dials → s.tasks[i]? = some t → (∀ k, t'.toDial k = false) →
      (∀ k, t'.toWrite k = false) → s'.Accounted := by
    rintro u i t t' rfl hu hd hi hdial hwrite
    exact accounted_of_trails hI htrails hd (owed_set_le hi (by rw [setTask, hu]) hdial hwrite)
  cases taskStep h with
  | others ht hd => exact accounted_of_trails hI htrails hd fun k => by rw [owed, owed, ht]
  | spawn job hpc ht hd =>
    refine accounted_of_trails hI htrails hd fun k => ?_
    rw [owed, owed, ht]
    rcases hpc with rfl | rfl <;> simp [Task.toDial, Task.toWrite, Pc.inFlight]
  | resolveKey hi _ hpc hs =>
    rcases hpc with rfl | ⟨key, rfl⟩ <;> exact hset hs rfl rfl hi (fun _ => rfl) fun _ => rfl
  | lock hi _ _ hs => exact hset hs rfl rfl hi (fun _ => rfl) fun _ => rfl
  | setRunning hi _ hpc hs =>
    rcases hpc with rfl | ⟨error, rfl⟩ <;> exact hset hs rfl rfl hi (fun _ => rfl) fun _ => rfl
  | refuse hi _ _ hs => exact hset hs rfl rfl hi (toDial_finish _ _) (toWrite_finish _ _)
  | undialed hi _ hs => exact hset hs rfl rfl hi (toDial_finish _ _) (toWrite_finish _ _)
  | settle hi _ hs => exact hset hs rfl rfl hi (fun _ => rfl) fun _ => rfl
  | listed => exact absurd rfl (hanswer _ _)
  | attempted => exact absurd rfl (hanswer _ _)
  | lost => exact absurd rfl (hanswer _ _)
  | @letThrough i id id' t pass hi hpc hr hs =>
    intro k
    have hk := hI k
    have hdials : s'.dials = s.dials := by rw [hs]; rfl
    have huses : s'.uses k ≤ s.uses k := by
      rw [uses, uses, hdials]
      exact Nat.add_le_add_left htrails.invocations.countP_le _
    have hallowed : s'.allowed k = s.allowed k + (if pass.dialKey? = some k then 1 else 0)
        + if t.job.callKey? = some k then 1 else 0 := by
      rw [← countP_phaseOne k hr, hs]
      rfl
    have howed : s'.owed k + _ = _ := owed_set hi (by rw [hs]; rfl) k
    simp only [Task.toDial, Task.toWrite, hpc, Pc.inFlight, Bool.false_and, Bool.true_and,
      Bool.toNat, Bool.cond_decide, Bool.cond_false] at howed
    omega
  | @dial i t pass started hi hpc _ hs =>
    intro k
    have hk := hI k
    have hext : s'.ext = s.ext := by rw [hs]; rfl
    have huses : s'.uses k = s.uses k + if pass.dialKey? = some k then 1 else 0 := by
      have hdials : s'.dials = s.dials ++ pass.dials i := by rw [hs]; rfl
      rw [uses, uses, hdials, hext, List.countP_append]
      rcases pass with ⟨row, bearer⟩ | account
      · simp only [Pass.dials, List.countP_singleton, Pass.dialKey?, decide_eq_true_eq,
          Option.some.injEq]
        omega
      · simp [Pass.dials, Pass.dialKey?]
    have hallowed : s'.allowed k = s.allowed k := by rw [allowed, hext]; rfl
    have howed : s'.owed k + _ = _ := owed_set hi (by rw [hs]; rfl) k
    simp only [Task.toDial, Task.toWrite, hpc, Pc.inFlight, Bool.true_and, Bool.toNat,
      Bool.cond_decide, Bool.cond_false] at howed
    omega

theorem audit_step {a : ExtAction} (h : s.step host a = some s') :
    s.ext.audit.rows <+: s'.ext.audit.rows := by
  by_cases hanswer : ∀ i c, a ≠ .answer i c
  · exact (trails_step h hanswer).audit
  · simp only [not_forall, not_not] at hanswer
    obtain ⟨i, c, rfl⟩ := hanswer
    obtain ⟨t, r, -, -, -, -, htrails | ⟨startedAt, c, row, -, he⟩⟩ := answer_cases h
    · exact htrails.audit
    · obtain ⟨u, -, hext⟩ := ExtStore.insertInvocation_eq_ok he
      rw [hext]

theorem accounted_fresh : fresh.Accounted := fun _ => Nat.zero_le _

/-- Along every run of a daemon rows are only added to the audit log, and each dial and each call
that has been written down has a row of its own there that allowed it. -/
theorem audit_trail {as bs : List ExtAction} {s s' : ExtSys}
    (hs : Runs.run (step host) fresh as = some s) (hr : Runs.run (step host) s bs = some s') :
    s.ext.audit.rows <+: s'.ext.audit.rows ∧ ∀ k, s'.uses k ≤ s'.allowed k := by
  have hI : s.Accounted := Runs.run_keeps (fun _ _ _ => accounted_step) accounted_fresh hs
  have hI' : s'.Accounted := Runs.run_keeps (fun _ _ _ => accounted_step) hI hr
  refine ⟨?_, fun k => (Nat.le_add_right _ _).trans (hI' k)⟩
  exact Runs.run_keeps (I := fun u : ExtSys => s.ext.audit.rows <+: u.ext.audit.rows)
    (fun _ _ _ hu hstep => hu.trans (audit_step hstep)) (List.prefix_refl _) hr

/-- A server is connected to and its tool called, and the server is deleted. -/
theorem audit_trail_deleted : ∃ s s', Runs.run (step plainExtHost) fresh searchCalled = some s
    ∧ Runs.run (step plainExtHost) s [.deleteServer "s"] = some s'
    ∧ s'.uses ⟨.connect, "s", none, none⟩ = 2 ∧ s'.allowed ⟨.connect, "s", none, none⟩ = 2
    ∧ s.ext.audit.rows <+: s'.ext.audit.rows ∧ ∀ k, s'.uses k ≤ s'.allowed k := by
  obtain ⟨s, s', hs, hr, huses, hallowed⟩ : ∃ s s',
      Runs.run (step plainExtHost) fresh searchCalled = some s
      ∧ Runs.run (step plainExtHost) s [.deleteServer "s"] = some s'
      ∧ s'.uses ⟨.connect, "s", none, none⟩ = 2 ∧ s'.allowed ⟨.connect, "s", none, none⟩ = 2 :=
    ⟨_, _, rfl, rfl, by decide +kernel, by decide +kernel⟩
  exact ⟨s, s', hs, hr, huses, hallowed, audit_trail hs hr⟩

end ExtSys

end BuilderPro
