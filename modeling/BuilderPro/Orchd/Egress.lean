import BuilderPro.Orchd.ToolBan

/-!
# No egress without consent

A server is dialed with the row and the bearer a task has been let out with, and a task is let out
by a step of the gate that finds the row enabled and consented to, and logs it (`LetOut`).  What
other steps do to the registry between the two is of no consequence to the dial: every one goes back
to such a step of its run (`egress_consented`).
-/

namespace BuilderPro

/-- The kind of the grant a transport needs. -/
def McpTransport.consentKind : McpTransport → String
  | .http => consentKindConnect
  | .stdio => consentKindStdioExec

/-- Whether the log has got a row for an action that was allowed. -/
def ExtSys.Logs (s : ExtSys) (e : ExtStore) (action : Action) : Prop :=
  ∃ id, s.ext.audit.lookup id = none ∧ auditRow action .allow id s.clock ∈ e.audit.rows

/-- What the gate has found when it lets a job out to a server, and left in the log. -/
structure LetOut (host : ExtHost) (s : ExtSys) (e : ExtStore) (job : Job) (server : McpServerRow) :
    Prop where
  held : s.ext.servers.lookup server.id = some server
  enabled : server.enabled = true
  consented : ∃ c, s.ext.consents.lookup (server.id, server.transport.consentKind) = some c
    ∧ c.fingerprint = fingerprintFor host s.binary server server.transport.consentKind
  logged : s.Logs e (connectAction host s.binary server)
  toolEnabled (c : ToolCall) (hc : job.toolCall? = some c) : c.serverId = server.id
    ∧ ∃ x, s.ext.tools.find server.id c.toolName = some x ∧ x.enabled = true
  toolLogged (c : ToolCall) (hc : job.toolCall? = some c) :
    s.Logs e (.toolCall server.id c.toolName c.projectId)

namespace ExtStore

variable {host : ExtHost} {e e' : ExtStore} {id : String} {now : ℤ} {action : Action}

theorem consent_of_evaluate {binary : String → Option (List UInt8)} {server : McpServerRow}
    (h : e.evaluate host now (connectAction host binary server) = .allow) :
    ∃ c, e.consents.lookup (server.id, server.transport.consentKind) = some c
      ∧ c.fingerprint = fingerprintFor host binary server server.transport.consentKind := by
  have hholds : e.consentHolds server.id server.transport.consentKind
      (fingerprintFor host binary server server.transport.consentKind) = true := by
    rcases ht : server.transport with _ | _ <;>
      simp only [connectAction, ht, evaluate] at h <;> split_ifs at h with hholds
    · exact hholds
    · exact hholds
  obtain ⟨c, hc, hfingerprint⟩ := Option.any_eq_true _ _ |>.1 hholds
  exact ⟨c, hc, by simpa using hfingerprint⟩

theorem tool_of_evaluate {serverId name : String} {projectId : Option String}
    (h : e.evaluate host now (.toolCall serverId name projectId) = .allow) :
    ∃ x, e.tools.find serverId name = some x ∧ x.enabled = true := by
  by_contra hnone
  have hbans : e.tools.Bans serverId name := fun x hx => by
    simpa using fun henabled => hnone ⟨x, hx, henabled⟩
  rw [(evaluate_toolCall_deny_iff host projectId).2 hbans] at h
  cases h

end ExtStore

namespace ExtSys

variable {host : ExtHost} {s : ExtSys} {e e' : ExtStore} {action : Action} {id id' : String}

theorem logs_of_authorize (h : s.ext.authorize host action id s.clock = .ok (e', .allow)) :
    s.Logs e' action := by
  obtain ⟨hdecision, t, ht, he⟩ := ExtStore.authorize_eq_ok h
  obtain ⟨hnone, hrows⟩ := KeyedTable.insert_eq_some.1 ht
  rw [ExtStore.auditRow_id] at hnone
  dsimp only at hdecision he hrows
  exact ⟨id, hnone, by simp [he, hrows]⟩

/-- What has been logged stays in the log. -/
theorem Logs.authorize {action' : Action} {decision : Decision} (h : s.Logs e action)
    (h' : e.authorize host action' id s.clock = .ok (e', decision)) : s.Logs e' action := by
  obtain ⟨id', hnone, hmem⟩ := h
  obtain ⟨-, t, ht, he⟩ := ExtStore.authorize_eq_ok h'
  dsimp only at he
  exact ⟨id', hnone, by simp [he, (KeyedTable.insert_eq_some.1 ht).2, hmem]⟩

end ExtSys

/-! ### Phase 1 -/

/-- Whether what phase 1 of a job leaves is either no pass to a server, with no bearer read, or one
to a server the job has been let out to. -/
def PhaseOne.LetsOut (host : ExtHost) (s : ExtSys) (job : Job) (r : PhaseOne) : Prop :=
  (r.secretsRead = [] ∧ ∀ server bearer, r.answer ≠ .ok (.server server bearer))
    ∨ ∃ server, LetOut host s r.ext job server
      ∧ (∀ ref ∈ r.secretsRead, server.authKind = .bearer ∧ ref = mcpBearerRef server.id)
      ∧ ∀ row bearer, r.answer = .ok (.server row bearer) →
        row = server ∧ resolveBearer s.secrets server = .ok bearer

section PhaseOne

variable {host : ExtHost} {s : ExtSys} {job : Job} {id id' : String}

theorem letsOut_refused (e : ExtStore) (error : OrchdMcpError) :
    (refused e error).LetsOut host s job :=
  .inl ⟨rfl, fun _ _ h => by cases h⟩

theorem letsOut_connectPhase {e : ExtStore} {server : McpServerRow} {t : KeyedTable AuditRow.id}
    (he : e = { s.ext with audit := t }) (hserver : s.ext.servers.lookup server.id = some server)
    (henabled : server.enabled = true)
    (htool : ∀ c, job.toolCall? = some c → (c.serverId = server.id
      ∧ ∃ x, s.ext.tools.find server.id c.toolName = some x ∧ x.enabled = true)
      ∧ s.Logs e (.toolCall server.id c.toolName c.projectId))
    (hfresh : ∀ id, e.audit.lookup id = none → s.ext.audit.lookup id = none) :
    (connectPhase host s e server id).LetsOut host s job := by
  rcases connectPhase_cases host s e server id with
    ⟨e', error, h⟩ | ⟨e', hallow, h⟩
  · rw [h]
    exact letsOut_refused e' error
  · rw [h]
    obtain ⟨hdecision, u, hu, he'⟩ := ExtStore.authorize_eq_ok hallow
    obtain ⟨hnone, hrows⟩ := KeyedTable.insert_eq_some.1 hu
    rw [ExtStore.auditRow_id] at hnone
    dsimp only at hdecision he'
    have hconsent := ExtStore.consent_of_evaluate hdecision.symm
    refine .inr ⟨server, ⟨hserver, henabled, ?_, ?_, fun c hc => (htool c hc).1, fun c hc =>
      (htool c hc).2.authorize hallow⟩, fun ref href => ?_, fun row bearer hanswer => ?_⟩
    · rwa [he] at hconsent
    · refine ⟨id, hfresh id hnone, ?_⟩
      rw [he', hrows]
      exact List.mem_append_right _ List.mem_cons_self
    · split_ifs at href with hauth
      · exact ⟨hauth, List.mem_singleton.1 href⟩
      · cases href
    · obtain ⟨b, hb, hpass⟩ := Results.map_eq_ok.1 (Results.mapError_eq_ok.1 hanswer)
      cases hpass
      exact ⟨rfl, hb⟩

theorem letsOut_callPhaseOne {c : ToolCall} (hjob : job.toolCall? = some c) :
    (callPhaseOne host s c id id').LetsOut host s job := by
  rcases callPhaseOne_cases host s c id id' with
    ⟨e, error, h⟩ | ⟨server, e, hserver, henabled, hallow, h⟩
  · rw [h]
    exact letsOut_refused e error
  · have hid := KeyedTable.key_eq hserver
    obtain ⟨hdecision, t, ht, he⟩ := ExtStore.authorize_eq_ok hallow
    rw [h]
    refine letsOut_connectPhase he (hid ▸ hserver) henabled (fun c' hc' => ?_) fun id hnone => ?_
    · obtain rfl : c = c' := Option.some.inj (hjob.symm.trans hc')
      rw [hid]
      exact ⟨⟨rfl, ExtStore.tool_of_evaluate hdecision.symm⟩, ExtSys.logs_of_authorize hallow⟩
    · dsimp only at he
      rw [he, KeyedTable.lookup_insert ht] at hnone
      split_ifs at hnone
      exact hnone

/-- Phase 1 lets a job out only to a server the gate has found in order. -/
theorem letsOut_phaseOne (host : ExtHost) (s : ExtSys) (job : Job) (id id' : String) :
    (job.phaseOne host s id id').LetsOut host s job := by
  rcases job with c | c | ⟨runId, c⟩ | serverId
  · exact letsOut_callPhaseOne rfl
  · unfold Job.phaseOne invokePhaseOne
    dsimp only
    split
    · exact letsOut_refused _ _
    · split
      · exact letsOut_refused _ _
      · exact letsOut_refused _ _
      · exact .inl ⟨rfl, fun _ _ h => by cases h⟩
  · exact letsOut_callPhaseOne rfl
  · unfold Job.phaseOne connectPhaseOne
    dsimp only
    rcases withEnabled_cases serverId (·.projectId) id
      (fun server => connectPhase host s s.ext server id) with
      ⟨e, error, h⟩ | ⟨server, hserver, henabled, h⟩
    · rw [h]
      exact letsOut_refused e error
    · rw [h]
      have hid := KeyedTable.key_eq hserver
      exact letsOut_connectPhase (t := s.ext.audit) rfl (hid ▸ hserver) henabled
        (fun c hc => by cases hc) fun _ hnone => hnone

end PhaseOne

/-! ### Runs -/

namespace ExtSys

variable {host : ExtHost} {s t : ExtSys} {as : List ExtAction}

/-- Whether a task waits with a pass to a server. -/
def Admitted (i : ℕ) (server : McpServerRow) (bearer : Option String) (s : ExtSys) : Prop :=
  ∃ t, s.tasks[i]? = some t ∧ t.pc = .admitted (.server server bearer)

/-- Whether some step of a run is one of the gate that lets a task out to a server; the keychain
answers it with `secrets`. -/
def LetsOut (host : ExtHost) (s : ExtSys) (as : List ExtAction) (i : ℕ) (server : McpServerRow)
    (secrets : SecretRef → Except String (List UInt8)) : Prop :=
  ∃ pre id id' post u v task, as = pre ++ .authorize i id id' :: post
    ∧ Runs.run (step host) s pre = some u ∧ u.step host (.authorize i id id') = some v
    ∧ u.tasks[i]? = some task ∧ LetOut host u v.ext task.job server ∧ secrets = u.secrets

theorem LetsOut.append {i : ℕ} {server : McpServerRow}
    {secrets : SecretRef → Except String (List UInt8)} (h : LetsOut host s as i server secrets)
    (bs : List ExtAction) : LetsOut host s (as ++ bs) i server secrets := by
  obtain ⟨pre, id, id', post, u, v, task, rfl, h⟩ := h
  exact ⟨pre, id, id', post ++ bs, u, v, task, by simp, h⟩

/-- The steps that set a task. -/
theorem tasks_setTask (i j : ℕ) (t : Task) :
    (s.setTask i t).tasks[j]? = if i = j ∧ i < s.tasks.length then some t else s.tasks[j]? := by
  rw [setTask, List.getElem?_set]
  by_cases hij : i = j
  · subst hij
    by_cases hi : i < s.tasks.length
    · simp [hi]
    · simp [hi]
  · simp [hij]

theorem finish_pc_ne (t : Task) (r : Except OrchdMcpError (String × String)) (pass : Pass) :
    (t.finish r).pc ≠ .admitted pass := by
  unfold Task.finish
  split
  · exact Pc.noConfusion
  · exact Pc.noConfusion

theorem admitted_of_setTask {i j : ℕ} {t' : Task} {server : McpServerRow} {bearer : Option String}
    (h : (s.setTask j t').Admitted i server bearer) :
    (j = i ∧ t'.pc = .admitted (.server server bearer)) ∨ s.Admitted i server bearer := by
  obtain ⟨u, hu, hpc⟩ := h
  rw [tasks_setTask] at hu
  split_ifs at hu with hij
  · cases hu
    exact .inl ⟨hij.1, hpc⟩
  · exact .inr ⟨u, hu, hpc⟩

/-- A task has its pass to a server from the gate. -/
theorem admitted_step {a : ExtAction} {i : ℕ} {server : McpServerRow} {bearer : Option String}
    (h : s.step host a = some t) (hs : ¬s.Admitted i server bearer)
    (ht : t.Admitted i server bearer) : ∃ id id' task, a = .authorize i id id'
      ∧ s.tasks[i]? = some task
      ∧ (task.job.phaseOne host s id id').answer = .ok (.server server bearer)
      ∧ t.ext = (task.job.phaseOne host s id id').ext := by
  have hset : ∀ {u : ExtSys} {j : ℕ} {t' : Task}, t = u.setTask j t' → u.tasks = s.tasks →
      j = i ∧ t'.pc = .admitted (.server server bearer) := by
    rintro u j t' rfl hu
    refine (admitted_of_setTask ht).resolve_right fun hu' => hs ?_
    obtain ⟨x, hx, hpc⟩ := hu'
    exact ⟨x, hu ▸ hx, hpc⟩
  cases taskStep h with
  | others hts =>
    obtain ⟨u, hu, hpc⟩ := ht
    exact absurd ⟨u, hts ▸ hu, hpc⟩ hs
  | spawn job hpc' hts =>
    obtain ⟨u, hu, hpc⟩ := ht
    rw [hts, List.getElem?_append] at hu
    split_ifs at hu
    · exact absurd ⟨u, hu, hpc⟩ hs
    · rw [List.getElem?_singleton] at hu
      split_ifs at hu
      cases hu
      rcases hpc' with rfl | rfl <;> cases hpc
  | resolveKey _ _ hpc' hs' =>
    obtain ⟨-, hpc⟩ := hset hs' rfl
    rcases hpc' with rfl | ⟨key, rfl⟩ <;> cases hpc
  | lock _ _ _ hs' => cases (hset hs' rfl).2
  | setRunning _ _ hpc' hs' =>
    obtain ⟨-, hpc⟩ := hset hs' rfl
    rcases hpc' with rfl | ⟨error, rfl⟩ <;> cases hpc
  | refuse _ _ _ hs' => exact absurd (hset hs' rfl).2 (finish_pc_ne _ _ _)
  | @letThrough j id id' task pass hi _ hr hs' =>
    obtain ⟨rfl, hpc⟩ := hset hs' rfl
    cases hpc
    exact ⟨id, id', task, rfl, hi, hr, hs' ▸ rfl⟩
  | dial _ _ _ hs' => cases (hset hs' rfl).2
  | undialed _ _ hs' => exact absurd (hset hs' rfl).2 (finish_pc_ne _ _ _)
  | listed _ _ _ hs' => exact absurd (hset hs' rfl).2 (finish_pc_ne _ _ _)
  | attempted _ _ _ _ _ hs' => exact absurd (hset hs' rfl).2 (finish_pc_ne _ _ _)
  | lost _ _ _ _ _ hs' => exact absurd (hset hs' rfl).2 (finish_pc_ne _ _ _)
  | settle _ _ hs' => cases (hset hs' rfl).2

/-- A dial is made with a pass. -/
theorem dial_step {a : ExtAction} {d : Dial} (h : s.step host a = some t) (hs : d ∉ s.dials)
    (ht : d ∈ t.dials) : s.Admitted d.task d.server d.bearer := by
  have hkeep : ∀ {u : ExtSys} {j : ℕ} {t' : Task}, t = u.setTask j t' → u.dials = s.dials →
      s.Admitted d.task d.server d.bearer := by
    rintro u j t' rfl hu
    exact absurd (hu ▸ ht) hs
  cases taskStep h with
  | others _ hd => exact absurd (hd ▸ ht) hs
  | spawn _ _ _ hd => exact absurd (hd ▸ ht) hs
  | @dial i task pass _ hi hpc _ hs' =>
    rw [hs'] at ht
    rcases List.mem_append.1 ht with ht | ht
    · exact absurd ht hs
    · rcases pass with ⟨row, bearer⟩ | account
      · obtain rfl := List.mem_singleton.1 ht
        exact ⟨task, hi, hpc⟩
      · cases ht
  | resolveKey _ _ _ hs' => exact hkeep hs' rfl
  | lock _ _ _ hs' => exact hkeep hs' rfl
  | setRunning _ _ _ hs' => exact hkeep hs' rfl
  | refuse _ _ _ hs' => exact hkeep hs' rfl
  | letThrough _ _ _ hs' => exact hkeep hs' rfl
  | undialed _ _ hs' => exact hkeep hs' rfl
  | listed _ _ _ hs' => exact hkeep hs' rfl
  | attempted _ _ _ _ _ hs' => exact hkeep hs' rfl
  | lost _ _ _ _ _ hs' => exact hkeep hs' rfl
  | settle _ _ hs' => exact hkeep hs' rfl

/-- Only the gate has bearers looked up. -/
theorem secretsRead_step {a : ExtAction} {ref : SecretRef} (h : s.step host a = some t)
    (hs : ref ∉ s.secretsRead) (ht : ref ∈ t.secretsRead) : ∃ i id id' task,
      a = .authorize i id id' ∧ s.tasks[i]? = some task
        ∧ ref ∈ (task.job.phaseOne host s id id').secretsRead
        ∧ t.ext = (task.job.phaseOne host s id id').ext := by
  have hkeep : ∀ {u : ExtSys} {j : ℕ} {t' : Task}, t = u.setTask j t' →
      u.secretsRead = s.secretsRead → ref ∈ s.secretsRead := by
    rintro u j t' rfl hu
    exact hu ▸ ht
  cases taskStep h with
  | others _ _ hr => exact absurd (hr ▸ ht) hs
  | spawn _ _ _ _ hr => exact absurd (hr ▸ ht) hs
  | @refuse i id id' task error hi _ _ hs' =>
    have hread := (List.mem_append.1 (hs' ▸ ht : ref ∈ s.secretsRead ++ _)).resolve_left hs
    exact ⟨i, id, id', task, rfl, hi, hread, hs' ▸ rfl⟩
  | @letThrough i id id' task pass hi _ _ hs' =>
    have hread := (List.mem_append.1 (hs' ▸ ht : ref ∈ s.secretsRead ++ _)).resolve_left hs
    exact ⟨i, id, id', task, rfl, hi, hread, hs' ▸ rfl⟩
  | resolveKey _ _ _ hs' => exact absurd (hkeep hs' rfl) hs
  | lock _ _ _ hs' => exact absurd (hkeep hs' rfl) hs
  | setRunning _ _ _ hs' => exact absurd (hkeep hs' rfl) hs
  | dial _ _ _ hs' => exact absurd (hkeep hs' rfl) hs
  | undialed _ _ hs' => exact absurd (hkeep hs' rfl) hs
  | listed _ _ _ hs' => exact absurd (hkeep hs' rfl) hs
  | attempted _ _ _ _ _ hs' => exact absurd (hkeep hs' rfl) hs
  | lost _ _ _ _ _ hs' => exact absurd (hkeep hs' rfl) hs
  | settle _ _ hs' => exact absurd (hkeep hs' rfl) hs

/-- Every dial is of a server that a step of the run has let its task out to, with the bearer that
step has resolved, and every bearer that is looked up is one of such a server. -/
theorem egress_consented (hs : s.Idle) (hr : Runs.run (step host) s as = some t) :
    (∀ d ∈ t.dials, ∃ secrets, LetsOut host s as d.task d.server secrets
        ∧ resolveBearer secrets d.server = .ok d.bearer)
      ∧ ∀ ref ∈ t.secretsRead, ∃ i server secrets, LetsOut host s as i server secrets
        ∧ server.authKind = .bearer ∧ ref = mcpBearerRef server.id := by
  obtain ⟨htasks, hdials, hread⟩ := hs
  constructor
  · intro d hd
    obtain ⟨pre, a, post, u, v, rfl, hpre, ha, hu, hv⟩ := Runs.exists_step_of_run
      (P := fun s => d ∈ s.dials) (by simp [hdials]) hr hd
    obtain ⟨pre', b, post', u', v', rfl, hpre', hb, hu', hv'⟩ := Runs.exists_step_of_run
      (P := Admitted d.task d.server d.bearer) (by simp [Admitted, htasks]) hpre
      (dial_step ha hu hv)
    obtain ⟨id, id', task, rfl, htask, hanswer, hext⟩ := admitted_step hb hu' hv'
    rcases letsOut_phaseOne host u' task.job id id' with
      ⟨-, hnone⟩ | ⟨server, hout, -, hpass⟩
    · exact absurd hanswer (hnone _ _)
    · obtain ⟨rfl, hbearer⟩ := hpass _ _ hanswer
      refine ⟨u'.secrets, LetsOut.append ?_ (a :: post), hbearer⟩
      exact ⟨pre', id, id', post', u', v', task, rfl, hpre', hb, htask, hext ▸ hout, rfl⟩
  · intro ref href
    obtain ⟨pre, a, post, u, v, rfl, hpre, ha, hu, hv⟩ := Runs.exists_step_of_run
      (P := fun s => ref ∈ s.secretsRead) (by simp [hread]) hr href
    obtain ⟨i, id, id', task, rfl, htask, hmem, hext⟩ := secretsRead_step ha hu hv
    rcases letsOut_phaseOne host u task.job id id' with
      ⟨hnone, -⟩ | ⟨server, hout, hrefs, -⟩
    · rw [hnone] at hmem
      cases hmem
    · obtain ⟨hauth, rfl⟩ := hrefs _ hmem
      exact ⟨i, server, u.secrets,
        ⟨pre, id, id', post, u, v, task, rfl, hpre, ha, htask, hext ▸ hout, rfl⟩, hauth, rfl⟩

/-- A server with a bearer is connected to, and its tool called. -/
def searchCalled : List ExtAction :=
  [.addServer { searchServer with authKind := .bearer } "s",
    .editSecrets fun ref => if ref = mcpBearerRef "s" then .ok [0x74] else .error "no such entry",
    .grantConsent "s" consentKindConnect "g" "a1"] ++ connects 0 "a2" ["wipe"] "t1"
    ++ [.request (.call ⟨"s", "wipe", "\x7b\x7d", none⟩), .resolveKey 1, .authorize 1 "a3" "a4",
      .dial 1]

theorem egress_consented_search : ∃ t, Runs.run (step plainExtHost) fresh searchCalled = some t
    ∧ t.dials.map Dial.bearer = [some "t", some "t"]
    ∧ (∀ d ∈ t.dials, ∃ secrets, LetsOut plainExtHost fresh searchCalled d.task d.server secrets
        ∧ resolveBearer secrets d.server = .ok d.bearer)
    ∧ ∀ ref ∈ t.secretsRead, ∃ i server secrets,
      LetsOut plainExtHost fresh searchCalled i server secrets
        ∧ server.authKind = .bearer ∧ ref = mcpBearerRef server.id :=
  ⟨_, rfl, by decide +kernel, egress_consented ⟨rfl, rfl, rfl⟩ rfl⟩

end ExtSys

end BuilderPro
