import BuilderPro.Orchd.Calls

/-!
# What a step of a call writes

Each verb of the registry and of the gate writes its own tables; of the tools and the invocations
only a few steps leave anything else than they found (`TableStep`).
-/

namespace BuilderPro

open Results

namespace ExtStore

variable {e : ExtStore}

theorem addMcpServer_eq_ok {new : NewMcpServer} {id : String} {now : ℤ}
    {r : ExtStore × McpServerRow} (h : e.addMcpServer new id now = .ok r) :
    ∃ x t, e.servers.insert x = some t ∧ r.1 = { e with servers := t } := by
  simp only [addMcpServer, bind_eq_ok] at h
  obtain ⟨-, -, -, -, h⟩ := h
  split at h
  · rename_i t ht
    cases h
    exact ⟨_, t, ht, rfl⟩
  · cases h

theorem updateMcpServer_eq_ok {id : String} {patch : McpServerPatch} {now : ℤ}
    {r : ExtStore × McpServerRow} (h : e.updateMcpServer id patch now = .ok r) :
    ∃ x c, r.1 = { e with servers := e.servers.replace x, consents := c } := by
  simp only [updateMcpServer, bind_eq_ok, ite_throw_eq_ok, throw_bind, pure_eq_ok] at h
  obtain ⟨x, -, -, rfl⟩ := h
  dsimp only
  split_ifs
  · exact ⟨_, _, rfl⟩
  · exact ⟨_, e.consents, rfl⟩

theorem setMcpServerEnabled_eq_ok {id : String} {enabled : Bool} {now : ℤ}
    {r : ExtStore × McpServerRow} (h : e.setMcpServerEnabled id enabled now = .ok r) :
    ∃ x, r.1 = { e with servers := e.servers.replace x } := by
  simp only [setMcpServerEnabled, bind_eq_ok, pure_eq_ok] at h
  obtain ⟨x, -, rfl⟩ := h
  exact ⟨_, rfl⟩

theorem setMcpServerSecretRef_eq_ok {id secretRef : String} {now : ℤ}
    {r : ExtStore × McpServerRow} (h : e.setMcpServerSecretRef id secretRef now = .ok r) :
    ∃ x, r.1 = { e with servers := e.servers.replace x } := by
  simp only [setMcpServerSecretRef, bind_eq_ok, pure_eq_ok] at h
  obtain ⟨x, -, rfl⟩ := h
  exact ⟨_, rfl⟩

theorem deleteMcpServer_eq_ok {id : String} {e' : ExtStore} (h : e.deleteMcpServer id = .ok e') :
    e'.tools = e.tools.keep fun t => t.serverId ≠ id := by
  simp only [deleteMcpServer, bind_eq_ok, pure_eq_ok] at h
  obtain ⟨x, -, rfl⟩ := h
  rfl

theorem insertAccount_eq_ok {x : AccountRow} {e' : ExtStore} (h : e.insertAccount x = .ok e') :
    ∃ t, e.accounts.insert x = some t ∧ e' = { e with accounts := t } := by
  unfold insertAccount at h
  split at h
  · rename_i t ht
    cases h
    exact ⟨t, ht, rfl⟩
  · cases h

theorem setMcpToolEnabled_eq_ok {toolId : String} {enabled : Bool} {r : ExtStore × McpToolRow}
    (h : e.setMcpToolEnabled toolId enabled = .ok r) :
    (∃ x, e.tools.lookup toolId = some x)
      ∧ r.1 = { e with tools := e.tools.setEnabled toolId enabled } := by
  unfold setMcpToolEnabled at h
  split at h
  · rename_i x hx
    cases h
    exact ⟨⟨x, hx⟩, rfl⟩
  · cases h

theorem grantConsent_eq_ok {serverId kind fingerprint id : String} {now : ℤ} {e' : ExtStore}
    (h : e.grantConsent serverId kind fingerprint id now = .ok e') :
    ∃ t, e' = { e with consents := t } := by
  simp only [grantConsent, bind_eq_ok] at h
  obtain ⟨-, -, h⟩ := h
  split at h
  · cases h
    exact ⟨_, rfl⟩
  · split at h
    · cases h
      exact ⟨_, rfl⟩
    · cases h

theorem insertAudit_eq_ok {x : AuditRow} {e' : ExtStore} (h : e.insertAudit x = .ok e') :
    ∃ t, e.audit.insert x = some t ∧ e' = { e with audit := t } := by
  unfold insertAudit at h
  split at h
  · rename_i t ht
    cases h
    exact ⟨t, ht, rfl⟩
  · cases h

theorem upsertPolicy_eq_ok {scope : PolicyScope} {refId : Option String} {spend : Option F64}
    {rate : Option ℤ} {id : String} {now : ℤ} {r : ExtStore × Policy}
    (h : e.upsertPolicy scope refId spend rate id now = .ok r) :
    ∃ t, r.1 = { e with policies := t } := by
  simp only [upsertPolicy, bind_eq_ok] at h
  obtain ⟨-, -, h⟩ := h
  split at h
  · cases h
    exact ⟨_, rfl⟩
  · split at h
    · cases h
      exact ⟨_, rfl⟩
    · cases h

theorem startResearchRun_eq_ok {ideaId serverId toolName argsJson id : String} {now : ℤ}
    {r : ExtStore × ResearchRunRow}
    (h : e.startResearchRun ideaId serverId toolName argsJson id now = .ok r) :
    ∃ d t, r.1 = { e with domain := d, runs := t } := by
  simp only [startResearchRun, bind_eq_ok] at h
  obtain ⟨d, -, h⟩ := h
  split at h
  · cases h
    exact ⟨_, _, rfl⟩
  · cases h

theorem updateRun_eq_ok {id : String} {f : ResearchRunRow → ResearchRunRow} {e' : ExtStore}
    (h : e.updateRun id f = .ok e') : ∃ t, e' = { e with runs := t } := by
  unfold updateRun at h
  split at h
  · cases h
    exact ⟨_, rfl⟩
  · cases h

theorem insertInvocation_eq_ok {x : McpInvocation} {e' : ExtStore}
    (h : e.insertInvocation x = .ok e') :
    ∃ t, e.invocations.insert x = some t ∧ e' = { e with invocations := t } := by
  simp only [insertInvocation, ite_error_eq_ok] at h
  obtain ⟨-, -, h⟩ := h
  split at h
  · rename_i t ht
    cases h
    exact ⟨t, ht, rfl⟩
  · cases h

theorem upsertMcpTools_eq_ok {serverId : String} {tools : List NewMcpTool} {draw : ℕ → String}
    {now : ℤ} {e' : ExtStore} (h : e.upsertMcpTools serverId tools draw now = .ok e') :
    ∃ t, (e.freshTools serverId tools draw now).foldlM insertTool
        (e.tools.keep fun t => t.serverId ≠ serverId) = .ok t
      ∧ e' = { e with tools := t } := by
  simp only [upsertMcpTools, bind_eq_ok, pure_eq_ok] at h
  obtain ⟨-, -, t, ht, rfl⟩ := h
  exact ⟨t, ht, rfl⟩

theorem authorize_eq_ok {host : ExtHost} {action : Action} {id : String} {now : ℤ}
    {r : ExtStore × Decision} (h : e.authorize host action id now = .ok r) :
    r.2 = e.evaluate host now action
      ∧ ∃ t, e.audit.insert (auditRow action r.2 id now) = some t
        ∧ r.1 = { e with audit := t } := by
  simp only [authorize, bind_eq_ok, pure_eq_ok] at h
  obtain ⟨e', he, rfl⟩ := h
  obtain ⟨t, ht, rfl⟩ := insertAudit_eq_ok he
  exact ⟨rfl, t, ht, rfl⟩

theorem auditRow_id (action : Action) (decision : Decision) (id : String) (now : ℤ) :
    (auditRow action decision id now).id = id := by
  unfold auditRow
  rcases decision with _ | reason <;> rfl

/-- A decision whose row's id is not taken is one that is seen. -/
theorem authorize_of_lookup_eq_none (host : ExtHost) (action : Action) {id : String} (now : ℤ)
    (h : e.audit.lookup id = none) :
    ∃ e', e.authorize host action id now = .ok (e', e.evaluate host now action) := by
  obtain ⟨t, ht⟩ : ∃ t, e.audit.insert (auditRow action (e.evaluate host now action) id now)
      = some t := KeyedTable.exists_insert (by rwa [auditRow_id])
  exact ⟨{ e with audit := t }, by simp [authorize, insertAudit, ht]⟩

end ExtStore

/-! ### Phase 1 -/

section PhaseOne

variable {host : ExtHost} {sys : ExtSys}

theorem connectPhase_audit (host : ExtHost) (sys : ExtSys) (e : ExtStore) (server : McpServerRow)
    (id : String) :
    ∃ t, (connectPhase host sys e server id).ext = { e with audit := t } := by
  unfold connectPhase
  split
  · exact ⟨e.audit, rfl⟩
  · rename_i h
    obtain ⟨-, t, -, ht⟩ := ExtStore.authorize_eq_ok h
    exact ⟨t, ht⟩
  · rename_i h
    obtain ⟨-, t, -, ht⟩ := ExtStore.authorize_eq_ok h
    exact ⟨t, ht⟩

theorem withEnabled_audit {serverId : String} {projectId : McpServerRow → Option String}
    {id : String} {k : McpServerRow → PhaseOne}
    (hk : ∀ server, ∃ t, (k server).ext = { sys.ext with audit := t }) :
    ∃ t, (withEnabled sys serverId projectId id k).ext = { sys.ext with audit := t } := by
  unfold withEnabled
  split
  · exact ⟨sys.ext.audit, rfl⟩
  · rename_i server _
    split_ifs
    · exact hk server
    · split
      · exact ⟨sys.ext.audit, rfl⟩
      · rename_i h
        obtain ⟨t, -, rfl⟩ := ExtStore.insertAudit_eq_ok h
        exact ⟨t, rfl⟩

/-- Phase 1 writes the audit log alone. -/
theorem phaseOne_audit (host : ExtHost) (sys : ExtSys) (job : Job) (id id' : String) :
    ∃ t, (job.phaseOne host sys id id').ext = { sys.ext with audit := t } := by
  have hcall : ∀ c, ∃ t, (callPhaseOne host sys c id id').ext = { sys.ext with audit := t } := by
    intro c
    refine withEnabled_audit fun server => ?_
    split
    · exact ⟨sys.ext.audit, rfl⟩
    · rename_i h
      obtain ⟨-, t, -, ht⟩ := ExtStore.authorize_eq_ok h
      exact ⟨t, ht⟩
    · rename_i e h
      obtain ⟨-, t, -, ht⟩ := ExtStore.authorize_eq_ok h
      obtain ⟨u, hu⟩ := connectPhase_audit host sys e server id'
      exact ⟨u, by rw [hu, show e = _ from ht]⟩
  rcases job with c | c | ⟨runId, c⟩ | serverId
  · exact hcall c
  · unfold Job.phaseOne invokePhaseOne
    dsimp only
    split
    · exact ⟨sys.ext.audit, rfl⟩
    · split
      · exact ⟨sys.ext.audit, rfl⟩
      all_goals
        rename_i h
        obtain ⟨-, t, -, ht⟩ := ExtStore.authorize_eq_ok h
        exact ⟨t, ht⟩
  · exact hcall c
  · exact withEnabled_audit fun server => connectPhase_audit host sys sys.ext server id

theorem withEnabled_cases (serverId : String) (projectId : McpServerRow → Option String)
    (id : String) (k : McpServerRow → PhaseOne) :
    (∃ e error, withEnabled sys serverId projectId id k = refused e error)
      ∨ ∃ server, sys.ext.servers.lookup serverId = some server ∧ server.enabled = true
        ∧ withEnabled sys serverId projectId id k = k server := by
  unfold withEnabled ExtStore.getMcpServer
  split
  · exact .inl ⟨_, _, rfl⟩
  · rename_i server hserver
    split at hserver <;> cases hserver
    rename_i hserver
    split_ifs with henabled
    · exact .inr ⟨server, hserver, henabled, rfl⟩
    · split
      · exact .inl ⟨_, _, rfl⟩
      · exact .inl ⟨_, _, rfl⟩

theorem connectPhase_cases (host : ExtHost) (sys : ExtSys) (e : ExtStore) (server : McpServerRow)
    (id : String) :
    (∃ e' error, connectPhase host sys e server id = refused e' error)
      ∨ ∃ e', e.authorize host (connectAction host sys.binary server) id sys.clock
          = .ok (e', .allow)
        ∧ connectPhase host sys e server id
          = ⟨e', if server.authKind = .bearer then [mcpBearerRef server.id] else [],
            (resolveBearer sys.secrets server).map (.server server) |>.mapError .secret⟩ := by
  unfold connectPhase
  split
  · exact .inl ⟨_, _, rfl⟩
  · exact .inl ⟨_, _, rfl⟩
  · rename_i e' h
    exact .inr ⟨e', h, rfl⟩

/-- A call that is not refused at its own gate comes to the one of a connect. -/
theorem callPhaseOne_cases (host : ExtHost) (sys : ExtSys) (c : ToolCall) (id id' : String) :
    (∃ e error, callPhaseOne host sys c id id' = refused e error)
      ∨ ∃ server e, sys.ext.servers.lookup c.serverId = some server ∧ server.enabled = true
        ∧ sys.ext.authorize host (.toolCall c.serverId c.toolName c.projectId) id sys.clock
          = .ok (e, .allow)
        ∧ callPhaseOne host sys c id id' = connectPhase host sys e server id' := by
  unfold callPhaseOne
  rcases withEnabled_cases c.serverId _ id _ with hrefused | ⟨server, hserver, henabled, hk⟩
  · exact .inl hrefused
  · rw [hk, ← KeyedTable.key_eq hserver]
    split
    · exact .inl ⟨_, _, rfl⟩
    · exact .inl ⟨_, _, rfl⟩
    · rename_i e h
      exact .inr ⟨server, e, KeyedTable.key_eq hserver ▸ hserver, henabled, h, rfl⟩

end PhaseOne

/-! ### Steps -/

@[simp] theorem Task.finish_job {t : Task} {r : Except OrchdMcpError (String × String)} :
    (t.finish r).job = t.job := by
  unfold finish
  split <;> rfl

/-- What a step does to the requests on their way. -/
inductive TaskStep (host : ExtHost) (s s' : ExtSys) : ExtAction → Prop
  | others {a : ExtAction} (ht : s'.tasks = s.tasks) (hd : s'.dials = s.dials)
      (hr : s'.secretsRead = s.secretsRead) (hc : s.clock ≤ s'.clock) : TaskStep host s s' a
  | spawn {a : ExtAction} (job : Job) {pc : Pc} (hpc : pc = .start ∨ pc = .ready)
      (ht : s'.tasks = s.tasks ++ [⟨job, pc, none, none, none⟩]) (hd : s'.dials = s.dials)
      (hr : s'.secretsRead = s.secretsRead) (hc : s'.clock = s.clock) : TaskStep host s s' a
  | resolveKey {i : ℕ} {t : Task} {pc : Pc} (hi : s.tasks[i]? = some t) (hpc : t.pc = .start)
      (hpc' : pc = .ready ∨ ∃ key, pc = .waiting key) (hs : s' = s.setTask i { t with pc := pc }) :
      TaskStep host s s' (.resolveKey i)
  | lock {i : ℕ} {t : Task} {key : String} (hi : s.tasks[i]? = some t) (hpc : t.pc = .waiting key)
      (hfree : ∀ u ∈ s.tasks, u.guard ≠ some key)
      (hs : s' = s.setTask i { t with pc := .ready, guard := some key }) :
      TaskStep host s s' (.lock i)
  | setRunning {i : ℕ} {t : Task} {pc : Pc} {e : ExtStore} (hi : s.tasks[i]? = some t)
      (hpc : t.pc = .start) (hpc' : pc = .ready ∨ ∃ error, pc = .over error)
      (hs : s' = { s with ext := e }.setTask i { t with pc := pc }) :
      TaskStep host s s' (.setRunning i)
  | refuse {i : ℕ} {id id' : String} {t : Task} {error : OrchdMcpError}
      (hi : s.tasks[i]? = some t) (hpc : t.pc = .ready)
      (hr : (t.job.phaseOne host s id id').answer = .error error)
      (hs : s' = ({ s with
        ext := (t.job.phaseOne host s id id').ext
        secretsRead := s.secretsRead ++ (t.job.phaseOne host s id id').secretsRead } :
          ExtSys).setTask i (t.finish (.error error))) : TaskStep host s s' (.authorize i id id')
  | letThrough {i : ℕ} {id id' : String} {t : Task} {pass : Pass}
      (hi : s.tasks[i]? = some t) (hpc : t.pc = .ready)
      (hr : (t.job.phaseOne host s id id').answer = .ok pass)
      (hs : s' = ({ s with
        ext := (t.job.phaseOne host s id id').ext
        secretsRead := s.secretsRead ++ (t.job.phaseOne host s id id').secretsRead } :
          ExtSys).setTask i { t with
            pc := .admitted pass
            under := t.job.policyRefs.bind fun r => s.ext.resolvePolicy r.1 r.2 }) :
      TaskStep host s s' (.authorize i id id')
  | dial {i : ℕ} {t : Task} {pass : Pass} {started : Option ℤ} (hi : s.tasks[i]? = some t)
      (hpc : t.pc = .admitted pass)
      (hstart : started = if t.job.args.isSome then some s.clock else t.startedAt)
      (hs : s' = ({ s with dials := s.dials ++ pass.dials i } : ExtSys).setTask i
        { t with pc := .dialing, startedAt := started }) : TaskStep host s s' (.dial i)
  | undialed {i : ℕ} {t : Task} {pass : Pass} {error : OrchdMcpError} (hi : s.tasks[i]? = some t)
      (hpc : t.pc = .admitted pass) (hs : s' = s.setTask i (t.finish (.error error))) :
      TaskStep host s s' (.dial i)
  | listed {i : ℕ} {a : Answer} {t : Task} {serverId : String} {e : ExtStore}
      {r : Except OrchdMcpError (String × String)} (hi : s.tasks[i]? = some t)
      (hpc : t.pc = .dialing) (hjob : t.job = .connect serverId)
      (hs : s' = { s with ext := e }.setTask i (t.finish r)) : TaskStep host s s' (.answer i a)
  | attempted {i : ℕ} {a : CallAnswer} {t : Task} {startedAt : ℤ} {row : McpInvocation}
      {e : ExtStore} {r : Except OrchdMcpError (String × String)} (hi : s.tasks[i]? = some t)
      (hpc : t.pc = .dialing) (hstart : t.startedAt = some startedAt)
      (hrow : t.job.invocation host startedAt a = some row)
      (he : s.ext.insertInvocation row = .ok e)
      (hs : s' = { s with ext := e }.setTask i (t.finish r)) :
      TaskStep host s s' (.answer i (.call a))
  | lost {i : ℕ} {a : CallAnswer} {t : Task} {startedAt : ℤ} {row : McpInvocation}
      {error : OrchdPersistError} (hi : s.tasks[i]? = some t) (hpc : t.pc = .dialing)
      (hstart : t.startedAt = some startedAt)
      (hrow : t.job.invocation host startedAt a = some row)
      (he : s.ext.insertInvocation row = .error error)
      (hs : s' = s.setTask i (t.finish (.error (.persist error)))) :
      TaskStep host s s' (.answer i (.call a))
  | settle {i : ℕ} {t : Task} {r : Except OrchdMcpError (String × String)} {e : ExtStore}
      {error : Option OrchdMcpError} (hi : s.tasks[i]? = some t) (hpc : t.pc = .called r)
      (hs : s' = { s with ext := e }.setTask i { t with pc := .over error }) :
      TaskStep host s s' (.settle i)

namespace ExtSys

variable {host : ExtHost} {s s' : ExtSys} {i : ℕ}

theorem resolveKey_taskStep (h : s.resolveKey i = some s') :
    TaskStep host s s' (.resolveKey i) := by
  simp only [resolveKey, Option.bind_eq_bind, Option.bind_eq_some_iff] at h
  obtain ⟨t, hi, ⟨projectId, serverId⟩, -, h⟩ := h
  split at h
  · rename_i hpc _
    split at h <;> cases h
    · exact .resolveKey hi hpc (.inl rfl) rfl
    · exact .resolveKey hi hpc (.inr ⟨_, rfl⟩) rfl
  · cases h

theorem lock_taskStep (h : s.lock i = some s') : TaskStep host s s' (.lock i) := by
  simp only [lock, Option.bind_eq_bind, Option.bind_eq_some_iff] at h
  obtain ⟨t, hi, h⟩ := h
  split at h
  · rename_i key hpc
    split_ifs at h with hheld
    cases h
    refine .lock hi hpc (fun u hu hg => hheld ?_) rfl
    exact List.any_eq_true.2 ⟨u, hu, by simp [hg]⟩
  · cases h

theorem setRunning_taskStep (h : s.setRunning i = some s') :
    TaskStep host s s' (.setRunning i) := by
  simp only [setRunning, Option.bind_eq_bind, Option.bind_eq_some_iff] at h
  obtain ⟨t, hi, h⟩ := h
  split at h
  · rename_i hpc
    split at h <;> cases h
    · exact .setRunning hi hpc (.inl rfl) rfl
    · exact .setRunning (e := s.ext) hi hpc (.inr ⟨_, rfl⟩) rfl
  · cases h

theorem authorize_taskStep {id id' : String} (h : s.authorize host i id id' = some s') :
    TaskStep host s s' (.authorize i id id') := by
  simp only [authorize, Option.bind_eq_bind, Option.bind_eq_some_iff] at h
  obtain ⟨t, hi, h⟩ := h
  split at h
  · rename_i hpc
    split at h <;> rename_i hr <;> cases h
    · exact .refuse hi hpc hr rfl
    · exact .letThrough hi hpc hr rfl
  · cases h

theorem dial_taskStep (h : s.dial host i = some s') : TaskStep host s s' (.dial i) := by
  simp only [dial, Option.bind_eq_bind, Option.bind_eq_some_iff] at h
  obtain ⟨t, hi, h⟩ := h
  split at h
  · rename_i pass hpc
    split at h
    · rename_i hargs
      split_ifs at h <;> cases h
      · exact .dial hi hpc (by simp [hargs]) rfl
      · exact .undialed hi hpc rfl
    · rename_i hargs
      cases h
      exact .dial hi hpc (by simp [hargs]) rfl
  · cases h

theorem answer_taskStep {a : Answer} (h : s.answer host i a = some s') :
    TaskStep host s s' (.answer i a) := by
  simp only [answer, Option.bind_eq_bind, Option.bind_eq_some_iff] at h
  obtain ⟨t, hi, h⟩ := h
  split at h
  · rename_i hpc hjob
    split at h <;> cases h
    · exact .listed hi hpc hjob rfl
    · exact .listed (e := s.ext) hi hpc hjob rfl
  · rename_i hpc hjob
    cases h
    exact .listed (e := s.ext) hi hpc hjob rfl
  · rename_i hpc
    rw [Option.bind_eq_some_iff] at h
    obtain ⟨startedAt, hstart, h⟩ := h
    rw [Option.bind_eq_some_iff] at h
    obtain ⟨row, hrow, h⟩ := h
    split at h <;> rename_i he <;> cases h
    · exact .lost hi hpc hstart hrow he rfl
    · exact .attempted hi hpc hstart hrow he rfl
  · cases h

theorem settle_taskStep (h : s.settle i = some s') : TaskStep host s s' (.settle i) := by
  simp only [settle, Option.bind_eq_bind, Option.bind_eq_some_iff] at h
  obtain ⟨t, hi, h⟩ := h
  split at h
  · rename_i hpc
    cases h
    exact .settle hi hpc rfl
  · cases h

theorem startRun_taskStep {a : ExtAction} {ideaId serverId toolName argsJson id : String} :
    TaskStep host s (s.startRun ideaId serverId toolName argsJson id) a := by
  unfold startRun
  split
  · exact .others rfl rfl rfl le_rfl
  · exact .spawn _ (.inl rfl) rfl rfl rfl rfl

theorem taskStep {a : ExtAction} (h : s.step host a = some s') : TaskStep host s s' a := by
  cases a with
  | request job =>
    rcases job with c | c | ⟨runId, c⟩ | serverId <;> cases h
    · exact .spawn _ (.inl rfl) rfl rfl rfl rfl
    · exact .spawn _ (.inl rfl) rfl rfl rfl rfl
    · exact .spawn _ (.inr rfl) rfl rfl rfl rfl
  | startRun =>
    cases h
    exact startRun_taskStep
  | resolveKey => exact resolveKey_taskStep h
  | lock => exact lock_taskStep h
  | setRunning => exact setRunning_taskStep h
  | authorize => exact authorize_taskStep h
  | dial => exact dial_taskStep h
  | answer => exact answer_taskStep h
  | settle => exact settle_taskStep h
  | tick ms =>
    cases h
    exact .others rfl rfl rfl (by simp)
  | _ =>
    cases h
    exact .others rfl rfl rfl le_rfl

end ExtSys

/-- A store that has the tools and the invocations of another, and its servers and accounts at
least. -/
structure ExtStore.Leaves (e e' : ExtStore) : Prop where
  tools : e'.tools = e.tools
  invocations : e'.invocations = e.invocations
  servers (id : String) (h : (e.servers.lookup id).isSome) : (e'.servers.lookup id).isSome
  accounts (id : String) (h : (e.accounts.lookup id).isSome) : (e'.accounts.lookup id).isSome

/-- What a step leaves of the tools and of the invocations. -/
inductive TableStep (host : ExtHost) (s s' : ExtSys) : ExtAction → Prop
  | others {a : ExtAction} (h : s.ext.Leaves s'.ext) : TableStep host s s' a
  | deleteServer {id : String}
      (ht : s'.ext.tools = s.ext.tools.keep fun t => t.serverId ≠ id) :
      TableStep host s s' (.deleteServer id)
  | deleteAccount {id : String} (ht : s'.ext.tools = s.ext.tools) :
      TableStep host s s' (.deleteAccount id)
  | setToolEnabled {id : String} {enabled : Bool} {x : McpToolRow}
      (hx : s.ext.tools.lookup id = some x)
      (hs : s'.ext = { s.ext with tools := s.ext.tools.setEnabled id enabled }) :
      TableStep host s s' (.setToolEnabled id enabled)
  | refresh {i : ℕ} {t : Task} {serverId : String} {tools : List NewMcpTool} {draw : ℕ → String}
      (hi : s.tasks[i]? = some t) (hpc : t.pc = .dialing) (hjob : t.job = .connect serverId)
      (he : s.ext.upsertMcpTools serverId tools draw s.clock = .ok s'.ext) :
      TableStep host s s' (.answer i (.tools tools draw))
  | attempt {i : ℕ} {a : CallAnswer} {t : Task} {startedAt : ℤ} {row : McpInvocation}
      (hi : s.tasks[i]? = some t) (hpc : t.pc = .dialing) (hstart : t.startedAt = some startedAt)
      (hrow : t.job.invocation host startedAt a = some row)
      (he : s.ext.insertInvocation row = .ok s'.ext) : TableStep host s s' (.answer i (.call a))

namespace ExtStore.Leaves

variable {e e' : ExtStore}

theorem refl (e : ExtStore) : e.Leaves e := ⟨rfl, rfl, fun _ h => h, fun _ h => h⟩

theorem trans {e'' : ExtStore} (h : e.Leaves e') (h' : e'.Leaves e'') : e.Leaves e'' :=
  ⟨h'.tools.trans h.tools, h'.invocations.trans h.invocations,
    fun id hid => h'.servers id (h.servers id hid),
    fun id hid => h'.accounts id (h.accounts id hid)⟩

/-- The audit log is none of these tables. -/
theorem of_insertAudit {x : AuditRow} (h : e.insertAudit x = .ok e') : e.Leaves e' := by
  obtain ⟨t, -, rfl⟩ := insertAudit_eq_ok h
  exact ⟨rfl, rfl, fun _ h => h, fun _ h => h⟩

theorem getD_insertAudit (h : e.Leaves e') (x : AuditRow) :
    e.Leaves ((e'.insertAudit x).toOption.getD e') := by
  rcases hx : e'.insertAudit x with _ | e''
  · exact h
  · exact h.trans (of_insertAudit hx)

theorem of_replace {x : McpServerRow} {c : KeyedTable ConsentRow.slot}
    (h : e' = { e with servers := e.servers.replace x, consents := c }) : e.Leaves e' := by
  subst h
  exact ⟨rfl, rfl, fun id hid => by simpa using hid, fun _ h => h⟩

end ExtStore.Leaves

namespace ExtSys

variable {host : ExtHost} {s s' : ExtSys}

/-- A verb that is refused leaves everything. -/
theorem verb_leaves {r : Except OrchdPersistError ExtStore}
    (hr : ∀ e, r = .ok e → s.ext.Leaves e) (h : s.verb r = some s') : s.ext.Leaves s'.ext := by
  cases h
  rcases r with _ | e
  · exact .refl _
  · exact hr e rfl

theorem grantConsent_leaves {serverId kind id auditId : String} {e : ExtStore}
    (h : s.grantConsent host serverId kind id auditId = .ok e) : s.ext.Leaves e := by
  simp only [grantConsent, Results.bind_eq_ok, Results.pure_eq_ok] at h
  obtain ⟨server, -, e, he, rfl⟩ := h
  obtain ⟨t, rfl⟩ := ExtStore.grantConsent_eq_ok he
  have hleaves : s.ext.Leaves { s.ext with consents := t } :=
    ⟨rfl, rfl, fun _ h => h, fun _ h => h⟩
  exact hleaves.getD_insertAudit _

theorem revokeConsent_leaves (serverId auditId : String) :
    s.ext.Leaves (s.revokeConsent serverId auditId) :=
  have hleaves : s.ext.Leaves (s.ext.deleteConsents serverId) :=
    ⟨rfl, rfl, fun _ h => h, fun _ h => h⟩
  hleaves.getD_insertAudit _

theorem startRun_leaves {ideaId serverId toolName argsJson id : String} :
    s.ext.Leaves (s.startRun ideaId serverId toolName argsJson id).ext := by
  unfold startRun
  split
  · exact .refl _
  · rename_i h
    obtain ⟨d, t, he⟩ := ExtStore.startResearchRun_eq_ok h
    dsimp only at he
    rw [he]
    exact ⟨rfl, rfl, fun _ h => h, fun _ h => h⟩

theorem updateRun_leaves {e e' : ExtStore} {id : String} {f : ResearchRunRow → ResearchRunRow}
    (h : e.updateRun id f = .ok e') : e.Leaves e' := by
  obtain ⟨t, rfl⟩ := ExtStore.updateRun_eq_ok h
  exact ⟨rfl, rfl, fun _ h => h, fun _ h => h⟩

theorem setRunning_leaves {i : ℕ} (h : s.setRunning i = some s') : s.ext.Leaves s'.ext := by
  simp only [setRunning, Option.bind_eq_bind, Option.bind_eq_some_iff] at h
  obtain ⟨t, -, h⟩ := h
  split at h
  · split at h <;> rename_i hrun <;> cases h
    · exact updateRun_leaves hrun
    · exact .refl _
  · cases h

theorem getD_updateRun_leaves (e : ExtStore) (id : String)
    (f : ResearchRunRow → ResearchRunRow) : e.Leaves ((e.updateRun id f).toOption.getD e) := by
  rcases hrun : e.updateRun id f with _ | e'
  · exact .refl _
  · exact updateRun_leaves hrun

theorem settle_leaves {i : ℕ} (h : s.settle i = some s') : s.ext.Leaves s'.ext := by
  simp only [settle, Option.bind_eq_bind, Option.bind_eq_some_iff] at h
  obtain ⟨t, -, h⟩ := h
  split at h
  · cases h
    split
    · exact getD_updateRun_leaves _ _ _
    · exact getD_updateRun_leaves _ _ _
  · cases h

theorem authorize_leaves {i : ℕ} {id id' : String} (h : s.authorize host i id id' = some s') :
    s.ext.Leaves s'.ext := by
  simp only [authorize, Option.bind_eq_bind, Option.bind_eq_some_iff] at h
  obtain ⟨t, -, h⟩ := h
  split at h
  · obtain ⟨u, hu⟩ := phaseOne_audit host s t.job id id'
    split at h <;> cases h <;> dsimp only [setTask] <;> rw [hu]
    all_goals exact ⟨rfl, rfl, fun _ h => h, fun _ h => h⟩
  · cases h

theorem dial_ext {i : ℕ} (h : s.dial host i = some s') : s'.ext = s.ext := by
  simp only [dial, Option.bind_eq_bind, Option.bind_eq_some_iff] at h
  obtain ⟨t, -, h⟩ := h
  split at h
  · split at h
    · split_ifs at h <;> cases h <;> rfl
    · cases h
      rfl
  · cases h

theorem resolveKey_ext {i : ℕ} (h : s.resolveKey i = some s') : s'.ext = s.ext := by
  simp only [resolveKey, Option.bind_eq_bind, Option.bind_eq_some_iff] at h
  obtain ⟨t, -, ⟨projectId, serverId⟩, -, h⟩ := h
  split at h
  · split at h <;> cases h <;> rfl
  · cases h

theorem lock_ext {i : ℕ} (h : s.lock i = some s') : s'.ext = s.ext := by
  simp only [lock, Option.bind_eq_bind, Option.bind_eq_some_iff] at h
  obtain ⟨t, -, h⟩ := h
  split at h
  · split_ifs at h
    cases h
    rfl
  · cases h

theorem answer_tableStep {i : ℕ} {a : Answer} (h : s.answer host i a = some s') :
    TableStep host s s' (.answer i a) := by
  simp only [answer, Option.bind_eq_bind, Option.bind_eq_some_iff] at h
  obtain ⟨t, hi, h⟩ := h
  split at h
  · rename_i hpc hjob
    split at h <;> rename_i he <;> cases h
    · exact .refresh hi hpc hjob he
    · exact .others (.refl _)
  · cases h
    exact .others (.refl _)
  · rename_i hpc
    rw [Option.bind_eq_some_iff] at h
    obtain ⟨startedAt, hstart, h⟩ := h
    rw [Option.bind_eq_some_iff] at h
    obtain ⟨row, hrow, h⟩ := h
    split at h <;> rename_i he <;> cases h
    · exact .others (.refl _)
    · exact .attempt hi hpc hstart hrow he
  · cases h

/-- A verb of the servers' rows that goes through replaces one. -/
theorem replace_leaves {α : Type} {r : Except OrchdPersistError (ExtStore × α)}
    (hr : ∀ e, r = .ok e → ∃ x c, e.1 = { s.ext with
      servers := s.ext.servers.replace x, consents := c })
    (h : s.verb ((·.1) <$> r) = some s') : s.ext.Leaves s'.ext := by
  refine verb_leaves (fun e he => ?_) h
  obtain ⟨p, hp, rfl⟩ := Results.map_eq_ok.1 he
  obtain ⟨x, c, hx⟩ := hr p hp
  exact .of_replace hx

theorem tableStep {a : ExtAction} (h : s.step host a = some s') : TableStep host s s' a := by
  cases a with
  | domain | tick | editBinary | editSecrets =>
    cases h
    exact .others ⟨rfl, rfl, fun _ h => h, fun _ h => h⟩
  | addServer new id =>
    refine .others (verb_leaves (fun e he => ?_) h)
    obtain ⟨p, hp, rfl⟩ := Results.map_eq_ok.1 he
    obtain ⟨x, t, ht, hx⟩ := ExtStore.addMcpServer_eq_ok hp
    rw [hx]
    exact ⟨rfl, rfl, fun _ hid => KeyedTable.isSome_insert ht hid, fun _ h => h⟩
  | updateServer => exact .others (replace_leaves (fun _ => ExtStore.updateMcpServer_eq_ok) h)
  | setServerEnabled =>
    refine .others (replace_leaves (fun _ he => ?_) h)
    obtain ⟨x, hx⟩ := ExtStore.setMcpServerEnabled_eq_ok he
    exact ⟨x, s.ext.consents, hx⟩
  | setSecretRef =>
    refine .others (replace_leaves (fun _ he => ?_) h)
    obtain ⟨x, hx⟩ := ExtStore.setMcpServerSecretRef_eq_ok he
    exact ⟨x, s.ext.consents, hx⟩
  | deleteServer id =>
    cases h
    rcases hr : s.ext.deleteMcpServer id with _ | e
    · exact .others (.refl _)
    · exact .deleteServer (ExtStore.deleteMcpServer_eq_ok hr)
  | addAccount row =>
    refine .others (verb_leaves (fun e he => ?_) h)
    obtain ⟨t, ht, rfl⟩ := ExtStore.insertAccount_eq_ok he
    exact ⟨rfl, rfl, fun _ h => h, fun _ hid => KeyedTable.isSome_insert ht hid⟩
  | deleteAccount id =>
    cases h
    exact .deleteAccount rfl
  | setToolEnabled toolId enabled =>
    cases h
    rcases hr : s.ext.setMcpToolEnabled toolId enabled with _ | r
    · exact .others (.refl _)
    · obtain ⟨⟨x, hx⟩, hr⟩ := ExtStore.setMcpToolEnabled_eq_ok hr
      exact .setToolEnabled hx hr
  | grantConsent => exact .others (verb_leaves (fun _ => grantConsent_leaves) h)
  | revokeConsent serverId auditId =>
    cases h
    exact .others (revokeConsent_leaves serverId auditId)
  | setPolicy =>
    refine .others (verb_leaves (fun e he => ?_) h)
    obtain ⟨p, hp, rfl⟩ := Results.map_eq_ok.1 he
    obtain ⟨t, ht⟩ := ExtStore.upsertPolicy_eq_ok hp
    rw [ht]
    exact ⟨rfl, rfl, fun _ h => h, fun _ h => h⟩
  | request job =>
    rcases job with c | c | ⟨runId, c⟩ | serverId <;> cases h
    all_goals exact .others (.refl _)
  | startRun =>
    cases h
    exact .others startRun_leaves
  | resolveKey => exact .others (resolveKey_ext h ▸ .refl _)
  | lock => exact .others (lock_ext h ▸ .refl _)
  | setRunning => exact .others (setRunning_leaves h)
  | authorize => exact .others (authorize_leaves h)
  | dial => exact .others (dial_ext h ▸ .refl _)
  | answer => exact answer_tableStep h
  | settle => exact .others (settle_leaves h)

end ExtSys

end BuilderPro
