import BuilderPro.Orchd.RunsSpared

/-!
# The steps of the research runs

A step leaves the runs and their drivers alone, starts a run with its driver, takes a driver and its
run one step on, or is a crash (`driverStep`).  Which statements fail with nothing to write down
that they have is said of each (`Recorded`).
-/

namespace BuilderPro

open Results

/-- The way a run's status goes. -/
def ResearchStatus.Follows (a b : ResearchStatus) : Prop :=
  b = a ∨ (a = .pending ∧ (b = .running ∨ b = .failed))
    ∨ (a = .running ∧ (b = .done ∨ b = .failed))

def ResearchStatus.settled : ResearchStatus → Bool
  | .done | .failed => true
  | _ => false

namespace ResearchSys

/-- An attempt, and what it has brought, that a run's own call has made. -/
structure MadeBy (s : ResearchSys) (r : ResearchRunRow) (x : McpInvocation) (y : McpArtifact) :
    Prop where
  invocation : s.sys.ext.invocations.lookup x.id = some x
  artifact : s.artifacts.lookup y.id = some y
  brought : y.invocationId = x.id
  ok : x.ok = true
  run : y.run = some r.id
  server : x.serverId = some r.serverId ∧ y.serverId = some r.serverId
  account : x.accountId = none ∧ y.accountId = none
  tool : x.toolName = r.toolName ∧ y.toolName = r.toolName
  rooted : y.rooted s.sys.ext = true

/-- A request for a run that is not turned down. -/
def Startable (s : ResearchSys) (ideaId serverId : String) : Prop :=
  (∃ i : Idea, s.sys.ext.domain.loadActive ideaId = .ok i)
    ∧ (s.sys.ext.servers.lookup serverId).isSome

/-- A statement that fails has no run to leave behind: it is not the lookup of `start_run` after its
commit, and not a driver's own write while its run is there. -/
def Recorded (s : ResearchSys) : ResearchAction → Prop
  | .startRun ideaId serverId _ _ _ (some .projectLookup) => ¬s.Startable ideaId serverId
  | .setRunning i true | .settle i true =>
    ∀ t ∈ s.sys.tasks[i]?, ∀ id ∈ t.job.runId?, s.runs.lookup id = none
  | _ => True

/-- A run has a driver with steps to take. -/
def Driven (s : ResearchSys) (id : String) : Prop :=
  ∃ (i : ℕ) (t : Task), s.sys.tasks[i]? = some t ∧ t.job.runId? = some id ∧ t.pc.live = true

/-- A driver is taken one step on, and its run's row with it. -/
structure Drives (s s' : ResearchSys) (i : ℕ) (t : Task) (id : String) (c : ToolCall) (pc : Pc)
    (f : ResearchRunRow → ResearchRunRow) : Prop where
  hi : s.sys.tasks[i]? = some t
  job : t.job = .research id c
  tasks : ∃ t', t'.job = t.job ∧ t'.pc = pc ∧ s'.sys.tasks = s.sys.tasks.set i t'
  runs : ∀ id', s'.runs.lookup id' = if id' = id then (s.runs.lookup id).map f
    else s.runs.lookup id'
  made {r x y} (h : s.MadeBy r x y) : s'.MadeBy r x y
  drawn : s'.drawn = s.drawn

/-- What a step does to the runs and their drivers. -/
inductive DriverStep (s s' : ResearchSys) : ResearchAction → Prop
  | quiet {a : ResearchAction} (ha : s.Recorded a)
      (hr : ∀ {id r}, s'.runs.lookup id = some r → s.runs.lookup id = some r)
      (hk : ∀ {id r x y}, s'.runs.lookup id = some r → s.MadeBy r x y → s'.MadeBy r x y)
      (ht : Followed s.sys.tasks s'.sys.tasks) (hd : ∀ id ∈ s.drawn, id ∈ s'.drawn) :
      DriverStep s s' a
  /-- A run is asked for; it has a driver unless the project's lookup has failed. -/
  | started {ideaId serverId toolName argsJson id : String} {fault : Option StartFault}
      {row : ResearchRunRow} (hid : id ∉ s.drawn) (hs : s.Startable ideaId serverId)
      (hrow : row.id = id ∧ row.status = .pending ∧ row.artifactId = none
        ∧ row.serverId = serverId ∧ row.toolName = toolName)
      (hr : ∀ id', s'.runs.lookup id' = if id' = id then some row else s.runs.lookup id')
      (hk : ∀ {r x y}, s.MadeBy r x y → s'.MadeBy r x y)
      (ht : (fault = some .projectLookup ∧ s'.sys.tasks = s.sys.tasks)
        ∨ (fault = none ∧ ∃ projectId, s'.sys.tasks = s.sys.tasks ++
          [⟨.research id ⟨serverId, toolName, argsJson, projectId⟩, .start, none, none, none⟩]))
      (hd : s'.drawn = id :: s.drawn) :
      DriverStep s s' (.startRun ideaId serverId toolName argsJson id fault)
  | running {i : ℕ} {t : Task} {id : String} {c : ToolCall} {now : ℤ} (hpc : t.pc = .start)
      (h : Drives s s' i t id c .ready fun r =>
        { r with status := .running, updatedAt := now }) :
      DriverStep s s' (.setRunning i false)
  | unstarted {i : ℕ} {t : Task} {id : String} {c : ToolCall} {fails : Bool}
      {error : Option OrchdMcpError} (hpc : t.pc = .start)
      (hgone : fails = false → s.runs.lookup id = none)
      (h : Drives s s' i t id c (.over error) fun r => r) : DriverStep s s' (.setRunning i fails)
  | brought {i : ℕ} {t : Task} {id : String} {c : ToolCall} {a : CallAnswer} {contentJson : String}
      {contentText : Option String} {fault : Option WriteFault} {x : McpInvocation}
      {y : McpArtifact} (hpc : t.pc = .dialing)
      (h : Drives s s' i t id c (.called (.ok (x.id, y.id))) fun r => r)
      (hm : ∀ r : ResearchRunRow, r.id = id → r.serverId = c.serverId → r.toolName = c.toolName →
        s'.MadeBy r x y) : DriverStep s s' (.answer i a contentJson contentText fault)
  | finished {i : ℕ} {t : Task} {id : String} {c : ToolCall} {inv art : String} {now : ℤ}
      (hpc : t.pc = .called (.ok (inv, art)))
      (h : Drives s s' i t id c (.over none) fun r =>
        { r with
          status := .done, invocationId := some inv, artifactId := some art, errorKind := none,
          updatedAt := now }) : DriverStep s s' (.settle i false)
  | failed {i : ℕ} {t : Task} {id : String} {c : ToolCall} {error : OrchdMcpError} {kind : String}
      {now : ℤ} (hpc : t.pc = .called (.error error))
      (h : Drives s s' i t id c (.over (some error)) fun r =>
        { r with
          status := .failed, errorKind := some kind, artifactId := none, updatedAt := now }) :
      DriverStep s s' (.settle i false)
  | unsettled {i : ℕ} {t : Task} {id : String} {c : ToolCall} {fails : Bool}
      {r : Except OrchdMcpError (String × String)} {error : Option OrchdMcpError}
      (hpc : t.pc = .called r) (hgone : fails = false → s.runs.lookup id = none)
      (h : Drives s s' i t id c (.over error) fun r => r) : DriverStep s s' (.settle i fails)
  | crash {now : ℤ} (hr : ∀ id, s'.runs.lookup id = (s.runs.lookup id).map (·.reconcile now))
      (hk : ∀ {r x y}, s.MadeBy r x y → s'.MadeBy r x y)
      (ht : s'.sys.tasks = s.sys.tasks.map Task.drop) (hd : s'.drawn = s.drawn) :
      DriverStep s s' .crash

variable {host : ExtHost} {s s' : ResearchSys}

theorem MadeBy.mono {r : ResearchRunRow} {x : McpInvocation} {y : McpArtifact}
    (h : s.MadeBy r x y) (hk : s.sys.ext.KeepsCalls s'.sys.ext r.serverId)
    (ha : y.rooted s'.sys.ext = true → s'.artifacts.lookup y.id = some y) : s'.MadeBy r x y := by
  have hx := hk.invocation h.invocation h.server.1 h.account.1
  have hrooted : y.rooted s'.sys.ext = true := by
    have hroot := h.rooted
    unfold McpArtifact.rooted at hroot ⊢
    rw [h.server.2, h.account.2, Option.all_some, Option.all_none, Bool.and_true,
      Bool.and_eq_true] at hroot ⊢
    refine ⟨?_, hk.server hroot.2⟩
    rw [h.brought, hx]
    rfl
  exact ⟨hx, ha hrooted, h.brought, h.ok, h.run, h.server, h.account, h.tool, hrooted⟩

theorem MadeBy.withSys {sys : ExtSys} {l : List String} {r : ResearchRunRow} {x : McpInvocation}
    {y : McpArtifact} (h : s.MadeBy r x y) (hk : s.sys.ext.KeepsCalls sys.ext r.serverId) :
    (({ s with drawn := l } : ResearchSys).withSys sys).MadeBy r x y := by
  refine h.mono hk fun hrooted => ?_
  show (s.artifacts.keep _).lookup y.id = some y
  rw [KeyedTable.lookup_keep, h.artifact, Option.filter_some]
  exact if_pos hrooted

/-- A run's name, server and tool are all that is asked of it. -/
theorem MadeBy.congr {r r' : ResearchRunRow} {x : McpInvocation} {y : McpArtifact}
    (h : s.MadeBy r x y) (hid : r'.id = r.id) (hs : r'.serverId = r.serverId)
    (ht : r'.toolName = r.toolName) : s.MadeBy r' x y :=
  ⟨h.invocation, h.artifact, h.brought, h.ok, hid ▸ h.run, hs ▸ h.server, h.account, ht ▸ h.tool,
    h.rooted⟩

/-! ### Each step -/

theorem quiet_withSys {a : ResearchAction} {sys : ExtSys} {l : List String} (ha : s.Recorded a)
    (hspare : s.sys.ext.Spares sys.ext) (ht : Followed s.sys.tasks sys.tasks)
    (hd : ∀ id ∈ s.drawn, id ∈ l) :
    DriverStep s (({ s with drawn := l } : ResearchSys).withSys sys) a :=
  .quiet ha hspare.runs (fun hr hm => hm.withSys (hspare.calls hr)) ht hd

theorem ext_driverStep {a : ExtAction} (h : s.step host (.ext a) = some s') :
    DriverStep s s' (.ext a) := by
  dsimp only [step] at h
  split_ifs at h with ha
  obtain ⟨sys, hsys, rfl⟩ := Option.map_eq_some_iff.1 h
  exact quiet_withSys trivial (ExtSys.common_spares ha hsys) (ExtSys.common_followed ha hsys)
    fun _ hid => hid

theorem drives_withSys {ext : ExtStore} {i : ℕ} {t t' : Task} {id : String} {c : ToolCall} {pc : Pc}
    {f : ResearchRunRow → ResearchRunRow} (hi : s.sys.tasks[i]? = some t)
    (hjob : t.job = .research id c) (hjob' : t'.job = t.job) (hpc : t'.pc = pc)
    (hr : ∀ id', ext.runs.lookup id' = if id' = id then (s.runs.lookup id).map f
      else s.runs.lookup id')
    (hk : ∀ serverId, s.sys.ext.KeepsCalls ext serverId) :
    Drives s (s.withSys (({ s.sys with ext := ext } : ExtSys).setTask i t')) i t id c pc f where
  hi := hi
  job := hjob
  tasks := ⟨t', hjob', hpc, rfl⟩
  runs := hr
  made hm := hm.withSys (hk _)
  drawn := rfl

/-- A driver that leaves the store as it is. -/
theorem drives_setTask {i : ℕ} {t t' : Task} {id : String} {c : ToolCall} {pc : Pc}
    (hi : s.sys.tasks[i]? = some t) (hjob : t.job = .research id c) (hjob' : t'.job = t.job)
    (hpc : t'.pc = pc) : Drives s (s.withSys (s.sys.setTask i t')) i t id c pc fun r => r := by
  refine drives_withSys hi hjob hjob' hpc (fun id' => ?_) fun _ =>
    (ExtStore.Leaves.refl s.sys.ext).keepsCalls _
  split_ifs with hid
  · rw [hid]
    exact (Option.map_id' ..).symm
  · rfl

end ResearchSys

namespace ExtStore

variable {e e' : ExtStore} {id : String} {f : ResearchRunRow → ResearchRunRow}

theorem updateRun_lookup (hf : ∀ r, (f r).id = r.id) (h : e.updateRun id f = .ok e') (id' : String) :
    e'.runs.lookup id' = if id' = id then (e.runs.lookup id).map f else e.runs.lookup id' := by
  unfold updateRun at h
  split at h
  · rename_i r hr
    cases h
    have hid := KeyedTable.key_eq hr
    show (e.runs.replace (f r)).lookup id' = _
    rw [KeyedTable.lookup_replace (y := r) (by rw [hf, hid, hr]), hf, hid, hr, Option.map_some]
  · cases h

theorem updateRun_error {error : OrchdPersistError} (h : e.updateRun id f = .error error) :
    e.runs.lookup id = none := by
  unfold updateRun at h
  split at h
  · cases h
  · assumption

end ExtStore

namespace ResearchSys

variable {host : ExtHost} {s s' : ResearchSys}

theorem setRunning_driverStep {i : ℕ} {fails : Bool} (h : s.setRunning i fails = some s') :
    DriverStep s s' (.setRunning i fails) := by
  unfold setRunning at h
  split_ifs at h with hf
  · subst hf
    simp only [Option.bind_eq_bind, Option.bind_eq_some_iff] at h
    obtain ⟨t, hi, h⟩ := h
    split at h
    · rename_i hjob hpc
      cases h
      exact .unstarted hpc (by simp) (drives_setTask hi hjob rfl rfl)
    · cases h
  · obtain ⟨sys, hsys, rfl⟩ := Option.map_eq_some_iff.1 h
    simp only [ExtSys.setRunning, Option.bind_eq_bind, Option.bind_eq_some_iff] at hsys
    obtain ⟨t, hi, hsys⟩ := hsys
    rw [Bool.not_eq_true] at hf
    subst hf
    split at hsys
    · rename_i hjob hpc
      split at hsys <;> rename_i hrun <;> cases hsys
      · exact .running hpc (drives_withSys hi hjob rfl rfl
          (ExtStore.updateRun_lookup (fun _ => rfl) hrun)
          fun _ => (ExtSys.updateRun_leaves hrun).keepsCalls _)
      · exact .unstarted hpc (fun _ => ExtStore.updateRun_error hrun)
          (drives_setTask hi hjob rfl rfl)
    · cases hsys

theorem settle_driverStep {i : ℕ} {fails : Bool} (h : s.settle i fails = some s') :
    DriverStep s s' (.settle i fails) := by
  unfold settle at h
  split_ifs at h with hf
  · subst hf
    simp only [Option.bind_eq_bind, Option.bind_eq_some_iff] at h
    obtain ⟨t, hi, h⟩ := h
    split at h
    · rename_i hjob hpc
      cases h
      exact .unsettled hpc (by simp) (drives_setTask hi hjob rfl rfl)
    · cases h
  · obtain ⟨sys, hsys, rfl⟩ := Option.map_eq_some_iff.1 h
    simp only [ExtSys.settle, Option.bind_eq_bind, Option.bind_eq_some_iff] at hsys
    obtain ⟨t, hi, hsys⟩ := hsys
    rw [Bool.not_eq_true] at hf
    subst hf
    split at hsys
    · rename_i runId c r hjob hpc
      rcases r with error | ⟨inv, art⟩ <;> dsimp only at hsys
      · rcases hrun : s.sys.ext.setResearchRunFailed runId error.runKind s.sys.clock with _ | e <;>
          rw [hrun] at hsys <;> cases hsys
        · exact .unsettled hpc (fun _ => ExtStore.updateRun_error hrun)
            (drives_setTask hi hjob rfl rfl)
        · exact .failed hpc (drives_withSys hi hjob rfl rfl
            (ExtStore.updateRun_lookup (fun _ => rfl) hrun)
            fun _ => (ExtSys.updateRun_leaves hrun).keepsCalls _)
      · rcases hrun : s.sys.ext.setResearchRunDone runId inv art s.sys.clock with _ | e <;>
          rw [hrun] at hsys <;> cases hsys
        · exact .unsettled hpc (fun _ => ExtStore.updateRun_error hrun)
            (drives_setTask hi hjob rfl rfl)
        · exact .finished hpc (drives_withSys hi hjob rfl rfl
            (ExtStore.updateRun_lookup (fun _ => rfl) hrun)
            fun _ => (ExtSys.updateRun_leaves hrun).keepsCalls _)
    · cases hsys

end ResearchSys

namespace ExtStore

variable {e : ExtStore} {ideaId serverId toolName argsJson id : String} {now : ℤ}

/-- A run that is started is one of an idea and a server that are there. -/
theorem startResearchRun_shape {r : ExtStore × ResearchRunRow}
    (h : e.startResearchRun ideaId serverId toolName argsJson id now = .ok r) :
    (∃ i : Idea, e.domain.loadActive ideaId = .ok i) ∧ (e.servers.lookup serverId).isSome
      ∧ r.2 = ⟨id, ideaId, serverId, toolName, argsJson, .pending, none, none, none, now, now⟩
      ∧ ∃ d t, e.runs.insert r.2 = some t ∧ r.1 = { e with domain := d, runs := t } := by
  simp only [startResearchRun, bind_eq_ok] at h
  obtain ⟨⟨d, flipped⟩, hd, h⟩ := h
  simp only [Store.startResearchRun, bind_eq_ok, ite_throw_eq_ok, throw_bind] at hd
  obtain ⟨i, hi, hserver, -⟩ := hd
  split at h
  · rename_i t ht
    cases h
    exact ⟨⟨i, hi⟩, Option.isSome_iff_ne_none.2 (by simpa using hserver), rfl, d, t, ht, rfl⟩
  · cases h

theorem exists_startResearchRun {i : Idea} (hi : e.domain.loadActive ideaId = .ok i)
    (hserver : (e.servers.lookup serverId).isSome) (hid : e.runs.lookup id = none) :
    ∃ r, e.startResearchRun ideaId serverId toolName argsJson id now = .ok r := by
  obtain ⟨t, ht⟩ := KeyedTable.exists_insert (t := e.runs)
    (x := ⟨id, ideaId, serverId, toolName, argsJson, .pending, none, none, none, now, now⟩) hid
  have hd : ∃ p, e.domain.startResearchRun ideaId (e.servers.lookup serverId).isSome now = .ok p := by
    unfold Store.startResearchRun
    rw [hi, hserver]
    by_cases hl : i.lifecycle = .captured
    · exact ⟨_, if_pos hl⟩
    · exact ⟨_, if_neg hl⟩
  obtain ⟨p, hp⟩ := hd
  simp only [startResearchRun, hp, ht]
  exact ⟨_, rfl⟩

end ExtStore

namespace ResearchSys

variable {host : ExtHost} {s s' : ResearchSys}

/-- What a run that is not started leaves. -/
theorem quiet_of_drawn {a : ResearchAction} {id : String} (ha : s.Recorded a) :
    DriverStep s { s with drawn := id :: s.drawn } a :=
  .quiet ha (fun hr => hr) (fun _ hm => ⟨hm.invocation, hm.artifact, hm.brought, hm.ok, hm.run,
    hm.server, hm.account, hm.tool, hm.rooted⟩) (.refl _) fun _ => List.mem_cons_of_mem _

theorem startRun_driverStep {ideaId serverId toolName argsJson id : String}
    {fault : Option StartFault} (hdrawn : ∀ {id r}, s.runs.lookup id = some r → id ∈ s.drawn)
    (h : s.startRun ideaId serverId toolName argsJson id fault = some s') :
    DriverStep s s' (.startRun ideaId serverId toolName argsJson id fault) := by
  unfold startRun at h
  split_ifs at h with hid
  have hnone : s.runs.lookup id = none := by
    by_contra hsome
    obtain ⟨r, hr⟩ := Option.ne_none_iff_exists'.1 hsome
    exact hid (hdrawn hr)
  rcases hrun : s.sys.ext.startResearchRun ideaId serverId toolName argsJson id s.sys.clock
    with error | ⟨e, row⟩
  · have hstart : ¬s.Startable ideaId serverId := by
      rintro ⟨⟨i, hi⟩, hserver⟩
      obtain ⟨r, hr⟩ := ExtStore.exists_startResearchRun hi hserver hnone
      rw [hr] at hrun
      cases hrun
    rcases fault with _ | _ | _
    · cases h
      rw [ExtSys.startRun, hrun]
      exact quiet_withSys trivial ((ExtStore.Leaves.refl _).spares rfl) (.refl _)
        fun _ => List.mem_cons_of_mem _
    · cases h
      exact quiet_of_drawn trivial
    · simp only [hrun] at h
      cases h
      exact quiet_of_drawn hstart
  · obtain ⟨hidea, hserver, hrow, d, t, ht, he⟩ := ExtStore.startResearchRun_shape hrun
    dsimp only at hrow he
    have hr : ∀ id', e.runs.lookup id' = if id' = id then some row else s.runs.lookup id' := by
      intro id'
      rw [he]
      show t.lookup id' = _
      rw [KeyedTable.lookup_insert ht, hrow]
      rfl
    have hk : ∀ serverId, s.sys.ext.KeepsCalls e serverId := by
      intro serverId
      rw [he]
      exact ⟨fun h => h, fun h _ _ => h⟩
    have hrow' : row.id = id ∧ row.status = .pending ∧ row.artifactId = none
        ∧ row.serverId = serverId ∧ row.toolName = toolName := by
      rw [hrow]
      exact ⟨rfl, rfl, rfl, rfl, rfl⟩
    rcases fault with _ | _ | _
    · cases h
      rw [ExtSys.startRun, hrun]
      dsimp only
      rw [hrow'.1]
      exact .started hid ⟨hidea, hserver⟩ hrow' hr (fun hm => hm.withSys (hk _))
        (.inr ⟨rfl, _, rfl⟩) rfl
    · cases h
      exact quiet_of_drawn trivial
    · simp only [hrun] at h
      cases h
      exact .started hid ⟨hidea, hserver⟩ hrow' hr (fun hm => hm.withSys (hk _))
        (.inl ⟨rfl, rfl⟩) rfl

/-- A gate that fails has written the audit log alone. -/
theorem callPhaseOneFailing_audit (host : ExtHost) (sys : ExtSys) (c : ToolCall) (auditId : String)
    (fault : GateFault) :
    ∃ t, (callPhaseOneFailing host sys c auditId fault).ext = { sys.ext with audit := t } := by
  unfold callPhaseOneFailing
  rcases fault with _ | _
  · exact ⟨sys.ext.audit, rfl⟩
  · refine withEnabled_audit fun server => ?_
    split
    · exact ⟨sys.ext.audit, rfl⟩
    all_goals
      rename_i h
      obtain ⟨-, t, -, ht⟩ := ExtStore.authorize_eq_ok h
      exact ⟨t, ht⟩

theorem authorize_driverStep {i : ℕ} {auditId connectAuditId : String} {fault : Option GateFault}
    (h : s.authorize host i auditId connectAuditId fault = some s') :
    DriverStep s s' (.authorize i auditId connectAuditId fault) := by
  unfold authorize at h
  rcases fault with _ | fault
  · obtain ⟨sys, hsys, rfl⟩ := Option.map_eq_some_iff.1 h
    simp only [ExtSys.authorize, Option.bind_eq_bind, Option.bind_eq_some_iff] at hsys
    obtain ⟨t, hi, hsys⟩ := hsys
    split at hsys
    · rename_i hpc
      have hcalling : t.pc.calling = true := by rw [hpc]; rfl
      obtain ⟨u, hu⟩ := phaseOne_audit host s.sys t.job auditId connectAuditId
      split at hsys <;> cases hsys
      · exact quiet_withSys trivial (ExtStore.spares_of_audit hu)
          (.set hi Task.finish_job (Task.finish_error hcalling)) fun _ hid => hid
      · exact quiet_withSys trivial (ExtStore.spares_of_audit hu)
          (.set hi rfl (.inr (.inr (.inl ⟨hcalling, rfl⟩)))) fun _ hid => hid
    · cases hsys
  · simp only [Option.bind_eq_bind, Option.bind_eq_some_iff] at h
    obtain ⟨t, hi, c, -, h⟩ := h
    split at h
    · rename_i hpc
      have hcalling : t.pc.calling = true := by rw [hpc]; rfl
      obtain ⟨u, hu⟩ := callPhaseOneFailing_audit host s.sys c auditId fault
      split at h <;> cases h
      exact quiet_withSys trivial (ExtStore.spares_of_audit hu)
        (.set hi Task.finish_job (Task.finish_error hcalling)) fun _ hid => hid
    · cases h

theorem insertInvocation_keepsCalls {e e' : ExtStore} {x : McpInvocation}
    (h : e.insertInvocation x = .ok e') (serverId : String) : e.KeepsCalls e' serverId := by
  obtain ⟨t, ht, rfl⟩ := ExtStore.insertInvocation_eq_ok h
  refine ⟨fun hs => hs, fun {id y} hy _ _ => ?_⟩
  have hne : id ≠ x.id := by
    rintro rfl
    rw [(KeyedTable.insert_eq_some.1 ht).1] at hy
    cases hy
  show t.lookup id = some y
  rw [KeyedTable.lookup_insert ht, if_neg hne]
  exact hy

/-- What phase 3 writes: at most an attempt, or one and what it has brought. -/
theorem record_cases (row : McpInvocation) (a : CallAnswer) (content : ArtifactContent)
    (run : Option String) (fault : Option WriteFault) :
    (∃ e error, s.record row a content run fault = (e, s.artifacts, .error error)
        ∧ s.sys.ext.Spares e) ∨
      ∃ e t x, s.record row a content run fault = (e, t, .ok (row.id, x.id)) ∧ a.error = none
        ∧ s.sys.ext.insertInvocation row = .ok e ∧ insertArtifact e s.artifacts x = .ok t
        ∧ x = row.artifact a.artifactId content run s.sys.clock := by
  unfold record
  split
  · exact .inl ⟨_, _, rfl, (ExtStore.Leaves.refl _).spares rfl⟩
  · rename_i e he
    split_ifs at he
    have hspare : s.sys.ext.Spares e :=
      ⟨fun hr => by
        obtain ⟨u, -, rfl⟩ := ExtStore.insertInvocation_eq_ok he
        exact hr, fun _ => insertInvocation_keepsCalls he _⟩
    split
    · exact .inl ⟨_, _, rfl, hspare⟩
    · rename_i herror
      dsimp only
      split
      · exact .inl ⟨_, _, rfl, hspare⟩
      · rename_i t ht
        split_ifs at ht
        exact .inr ⟨e, t, _, rfl, herror, he, ht, rfl⟩

theorem lookup_insertArtifact {e : ExtStore} {t t' : KeyedTable McpArtifact.id}
    {x y : McpArtifact} (h : insertArtifact e t x = .ok t') (hy : t.lookup y.id = some y) :
    t'.lookup y.id = some y := by
  have ht := (insertArtifact_eq_ok h).2
  have hne : y.id ≠ x.id := by
    intro hid
    rw [hid, (KeyedTable.insert_eq_some.1 ht).1] at hy
    cases hy
  rw [KeyedTable.lookup_insert ht, if_neg hne]
  exact hy

theorem answer_driverStep {i : ℕ} {a : CallAnswer} {contentJson : String}
    {contentText : Option String} {fault : Option WriteFault}
    (h : s.answer host i a contentJson contentText fault = some s') :
    DriverStep s s' (.answer i a contentJson contentText fault) := by
  simp only [answer, Option.bind_eq_bind, Option.bind_eq_some_iff] at h
  obtain ⟨t, hi, h⟩ := h
  split at h
  · rename_i hpc
    have hcalling : t.pc.calling = true := by rw [hpc]; rfl
    rw [Option.bind_eq_some_iff] at h
    obtain ⟨startedAt, -, h⟩ := h
    rw [Option.bind_eq_some_iff] at h
    obtain ⟨row, hrow, h⟩ := h
    rcases s.record_cases row a (.fit contentJson contentText) t.job.runId? fault with
      ⟨e, error, hrecord, hspare⟩ | ⟨e, u, x, hrecord, herror, he, hu, hx⟩ <;>
        rw [hrecord] at h <;> cases h
    · exact .quiet trivial hspare.runs (fun hr hm => hm.mono (hspare.calls hr) fun _ => hm.artifact)
        (.set hi Task.finish_job (Task.finish_error hcalling)) fun _ hid => hid
    · have hruns : e.runs = s.runs := by
        obtain ⟨v, -, rfl⟩ := ExtStore.insertInvocation_eq_ok he
        rfl
      have hmade : ∀ {r v w}, s.MadeBy r v w → MadeBy
          { s with
            sys := ({ s.sys with ext := e } : ExtSys).setTask i (t.finish (.ok (row.id, x.id)))
            artifacts := u } r v w := fun hm =>
        hm.mono (insertInvocation_keepsCalls he _) fun _ => lookup_insertArtifact hu hm.artifact
      rcases hid : t.job.runId? with _ | id
      · exact .quiet trivial (fun hr => hruns ▸ hr) (fun _ hm => hmade hm)
          (.set hi Task.finish_job (.inl hid)) fun _ hid => hid
      · obtain ⟨c, hc⟩ := Job.runId?_eq_some.1 hid
        rw [hc] at hrow
        obtain ⟨hrooted, hins⟩ := insertArtifact_eq_ok hu
        refine .brought (x := row) (y := x) hpc
          ⟨hi, hc, ⟨_, Task.finish_job, Task.finish_pc hid, rfl⟩, fun id' => ?_, hmade, rfl⟩
          fun r hr hserver htool => ?_
        · show e.runs.lookup id' = _
          rw [hruns]
          split_ifs with h'
          · rw [h']
            exact (Option.map_id' ..).symm
          · rfl
        · have hlookup : e.invocations.lookup row.id = some row := by
            obtain ⟨v, hv, rfl⟩ := ExtStore.insertInvocation_eq_ok he
            show v.lookup row.id = some row
            rw [KeyedTable.lookup_insert hv, if_pos rfl]
          have hartifact : u.lookup x.id = some x := by
            rw [KeyedTable.lookup_insert hins, if_pos rfl]
          have hcall : row.serverId = some c.serverId ∧ row.accountId = none
              ∧ row.toolName = c.toolName ∧ row.ok = a.error.isNone := by
            cases hrow
            exact ⟨rfl, rfl, rfl, rfl⟩
          have hbrought : x.invocationId = row.id ∧ x.run = some id ∧ x.serverId = row.serverId
              ∧ x.accountId = row.accountId ∧ x.toolName = row.toolName := by
            rw [hx, hid]
            exact ⟨rfl, rfl, rfl, rfl, rfl⟩
          obtain ⟨hs, hacc, htl, hok⟩ := hcall
          obtain ⟨hof, hrun, hs', hacc', htl'⟩ := hbrought
          rw [herror] at hok
          exact ⟨hlookup, hartifact, hof, hok, hr ▸ hrun, ⟨hserver ▸ hs, hserver ▸ hs'.trans hs⟩,
            ⟨hacc, hacc'.trans hacc⟩, ⟨htl.trans htool.symm, (htl'.trans htl).trans htool.symm⟩,
            hrooted⟩
  · cases h

theorem crash_driverStep : DriverStep s s.crash .crash := by
  have hk : ∀ serverId, s.sys.ext.KeepsCalls
      (s.sys.ext.reconcileInterruptedResearchRuns s.sys.clock) serverId := fun _ =>
    ⟨fun hs => hs, fun hx _ _ => hx⟩
  exact .crash (fun _ => KeyedTable.lookup_mapRows (ResearchRunRow.reconcile_id _))
    (fun hm => hm.withSys (hk _)) rfl rfl

theorem driverStep {a : ResearchAction}
    (hdrawn : ∀ {id r}, s.runs.lookup id = some r → id ∈ s.drawn) (h : s.step host a = some s') :
    DriverStep s s' a := by
  cases a with
  | ext a => exact ext_driverStep h
  | startRun => exact startRun_driverStep hdrawn h
  | setRunning => exact setRunning_driverStep h
  | authorize => exact authorize_driverStep h
  | answer => exact answer_driverStep h
  | settle => exact settle_driverStep h
  | crash =>
    cases h
    exact crash_driverStep

end ResearchSys

end BuilderPro
