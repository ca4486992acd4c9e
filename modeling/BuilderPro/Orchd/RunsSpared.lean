import BuilderPro.Orchd.ResearchRuns

/-!
# What goes on around the research runs

A request that is about no run leaves the runs as they are, or deletes them with the calls of their
server (`common_spares`), and it follows the drivers without taking a step of theirs that a row
would show (`common_followed`).
-/

namespace BuilderPro

open Results

namespace ExtStore

/-- A store that has what another has of the calls of a server. -/
structure KeepsCalls (e e' : ExtStore) (serverId : String) : Prop where
  server (h : (e.servers.lookup serverId).isSome) : (e'.servers.lookup serverId).isSome
  invocation {id : String} {x : McpInvocation} (h : e.invocations.lookup id = some x)
    (hs : x.serverId = some serverId) (ha : x.accountId = none) :
    e'.invocations.lookup id = some x

/-- A store with no run another does not have, and with what it has of the calls of the others'
servers. -/
structure Spares (e e' : ExtStore) : Prop where
  runs {id : String} {r : ResearchRunRow} (h : e'.runs.lookup id = some r) :
    e.runs.lookup id = some r
  calls {id : String} {r : ResearchRunRow} (h : e'.runs.lookup id = some r) :
    e.KeepsCalls e' r.serverId

variable {e e' : ExtStore}

theorem Leaves.keepsCalls (h : e.Leaves e') (serverId : String) : e.KeepsCalls e' serverId where
  server := h.servers serverId
  invocation hx _ _ := by
    rw [h.invocations]
    exact hx

theorem Leaves.spares (h : e.Leaves e') (hr : e'.runs = e.runs) : e.Spares e' where
  runs hid := hr ▸ hid
  calls _ := h.keepsCalls _

theorem spares_of_audit {t : KeyedTable AuditRow.id} (h : e' = { e with audit := t }) :
    e.Spares e' := by
  rw [h]
  exact ⟨fun h => h, fun _ => ⟨fun h => h, fun h _ _ => h⟩⟩

theorem deleteMcpServer_shape {id : String} (h : e.deleteMcpServer id = .ok e') :
    e' = { e with
      servers := e.servers.erase id
      tools := e.tools.keep fun t => t.serverId ≠ id
      invocations := e.invocations.keep fun i => i.serverId ≠ some id
      consents := e.consents.keep fun c => c.serverId ≠ id
      runs := e.runs.keep fun r => r.serverId ≠ id } := by
  simp only [deleteMcpServer, bind_eq_ok, pure_eq_ok] at h
  obtain ⟨x, -, rfl⟩ := h
  rfl

/-- What goes with a server is all of its runs. -/
theorem deleteMcpServer_spares {id : String} (h : e.deleteMcpServer id = .ok e') :
    e.Spares e' := by
  have hshape := deleteMcpServer_shape h
  have hruns : ∀ {rid r}, e'.runs.lookup rid = some r →
      e.runs.lookup rid = some r ∧ r.serverId ≠ id := by
    intro rid r hr
    rw [hshape] at hr
    simpa [Option.filter_eq_some_iff] using hr
  refine ⟨fun hr => (hruns hr).1, fun {rid r} hr => ⟨fun hs => ?_, fun hx hs _ => ?_⟩⟩
  · rw [hshape]
    show ((e.servers.erase id).lookup r.serverId).isSome
    rwa [KeyedTable.lookup_erase_ne (hruns hr).2]
  · rw [hshape]
    show (e.invocations.keep _).lookup _ = _
    rw [KeyedTable.lookup_keep, hx, Option.filter_some, if_pos]
    simpa [hs] using (hruns hr).2

/-- An account's invocations are of no server. -/
theorem eraseAccount_spares (e : ExtStore) (id : String) : e.Spares (e.eraseAccount id) := by
  refine ⟨fun hr => hr, fun hr => ⟨fun hs => hs, fun hx _ ha => ?_⟩⟩
  show (e.invocations.keep _).lookup _ = _
  rw [KeyedTable.lookup_keep, hx, Option.filter_some, if_pos]
  simp [ha]

end ExtStore

namespace ExtSys

variable {host : ExtHost} {s s' : ExtSys}

theorem verb_runs {r : Except OrchdPersistError ExtStore}
    (hr : ∀ e, r = .ok e → e.runs = s.ext.runs) (h : s.verb r = some s') :
    s'.ext.runs = s.ext.runs := by
  cases h
  rcases r with _ | e
  · rfl
  · exact hr e rfl

theorem map_verb_runs {α : Type} {r : Except OrchdPersistError (ExtStore × α)}
    (hr : ∀ p, r = .ok p → p.1.runs = s.ext.runs) (h : s.verb ((·.1) <$> r) = some s') :
    s'.ext.runs = s.ext.runs := by
  refine verb_runs (fun e he => ?_) h
  obtain ⟨p, hp, rfl⟩ := map_eq_ok.1 he
  exact hr p hp

theorem getD_insertAudit_runs (e : ExtStore) (x : AuditRow) :
    ((e.insertAudit x).toOption.getD e).runs = e.runs := by
  rcases hx : e.insertAudit x with _ | e'
  · rfl
  · obtain ⟨t, -, rfl⟩ := ExtStore.insertAudit_eq_ok hx
    rfl

theorem grantConsent_runs {serverId kind id auditId : String} {e : ExtStore}
    (h : s.grantConsent host serverId kind id auditId = .ok e) : e.runs = s.ext.runs := by
  simp only [grantConsent, bind_eq_ok, pure_eq_ok] at h
  obtain ⟨server, -, e, he, rfl⟩ := h
  obtain ⟨t, rfl⟩ := ExtStore.grantConsent_eq_ok he
  exact getD_insertAudit_runs _ _

theorem answer_runs {i : ℕ} {a : Answer} (h : s.answer host i a = some s') :
    s'.ext.runs = s.ext.runs := by
  simp only [answer, Option.bind_eq_bind, Option.bind_eq_some_iff] at h
  obtain ⟨t, -, h⟩ := h
  split at h
  · split at h <;> rename_i he <;> cases h
    · obtain ⟨u, -, rfl⟩ := ExtStore.upsertMcpTools_eq_ok he
      rfl
    · rfl
  · cases h
    rfl
  · rw [Option.bind_eq_some_iff] at h
    obtain ⟨startedAt, -, h⟩ := h
    rw [Option.bind_eq_some_iff] at h
    obtain ⟨row, -, h⟩ := h
    split at h <;> rename_i he <;> cases h
    · rfl
    · obtain ⟨u, -, rfl⟩ := ExtStore.insertInvocation_eq_ok he
      rfl
  · cases h

theorem common_spares {a : ExtAction} (ha : a.common = true) (h : s.step host a = some s') :
    s.ext.Spares s'.ext := by
  have htab := tableStep h
  cases a with
  | domain d =>
    cases h
    refine ⟨fun hr => ?_, fun _ => ⟨fun hs => hs, fun hx _ _ => hx⟩⟩
    have hr : (s.ext.runs.keep fun r => (d.ideas.lookup r.ideaId).isSome).lookup _ = _ := hr
    rw [KeyedTable.lookup_keep, Option.filter_eq_some_iff] at hr
    exact hr.1
  | deleteServer id =>
    cases h
    rcases hr : s.ext.deleteMcpServer id with _ | e
    · exact (ExtStore.Leaves.refl _).spares rfl
    · exact ExtStore.deleteMcpServer_spares hr
  | deleteAccount id =>
    cases h
    exact s.ext.eraseAccount_spares id
  | setToolEnabled toolId enabled =>
    cases h
    rcases hr : s.ext.setMcpToolEnabled toolId enabled with _ | r
    · exact (ExtStore.Leaves.refl _).spares rfl
    · obtain ⟨-, hr'⟩ := ExtStore.setMcpToolEnabled_eq_ok hr
      show s.ext.Spares r.1
      rw [hr']
      exact ⟨fun h => h, fun _ => ⟨fun h => h, fun h _ _ => h⟩⟩
  | answer i a =>
    rcases a with ⟨tools, draw⟩ | error | a
    · cases htab with
      | others hl => exact hl.spares (answer_runs h)
      | refresh _ _ _ he =>
        obtain ⟨u, -, hu⟩ := ExtStore.upsertMcpTools_eq_ok he
        rw [hu]
        exact ⟨fun h => h, fun _ => ⟨fun h => h, fun h _ _ => h⟩⟩
    · cases htab with
      | others hl => exact hl.spares (answer_runs h)
    · cases ha
  | startRun | setRunning | authorize | settle => cases ha
  | addServer =>
    cases htab with
    | others hl =>
      refine hl.spares (map_verb_runs (fun p hp => ?_) h)
      obtain ⟨x, t, -, hx⟩ := ExtStore.addMcpServer_eq_ok hp
      rw [hx]
  | updateServer =>
    cases htab with
    | others hl =>
      refine hl.spares (map_verb_runs (fun p hp => ?_) h)
      obtain ⟨x, c, hx⟩ := ExtStore.updateMcpServer_eq_ok hp
      rw [hx]
  | setServerEnabled =>
    cases htab with
    | others hl =>
      refine hl.spares (map_verb_runs (fun p hp => ?_) h)
      obtain ⟨x, hx⟩ := ExtStore.setMcpServerEnabled_eq_ok hp
      rw [hx]
  | setSecretRef =>
    cases htab with
    | others hl =>
      refine hl.spares (map_verb_runs (fun p hp => ?_) h)
      obtain ⟨x, hx⟩ := ExtStore.setMcpServerSecretRef_eq_ok hp
      rw [hx]
  | setPolicy =>
    cases htab with
    | others hl =>
      refine hl.spares (map_verb_runs (fun p hp => ?_) h)
      obtain ⟨t, ht⟩ := ExtStore.upsertPolicy_eq_ok hp
      rw [ht]
  | addAccount =>
    cases htab with
    | others hl =>
      refine hl.spares (verb_runs (fun e he => ?_) h)
      obtain ⟨t, -, rfl⟩ := ExtStore.insertAccount_eq_ok he
      rfl
  | grantConsent =>
    cases htab with
    | others hl => exact hl.spares (verb_runs (fun _ => grantConsent_runs) h)
  | revokeConsent =>
    cases htab with
    | others hl =>
      cases h
      exact hl.spares (getD_insertAudit_runs _ _)
  | resolveKey =>
    cases htab with
    | others hl => exact hl.spares (by rw [resolveKey_ext h])
  | lock =>
    cases htab with
    | others hl => exact hl.spares (by rw [lock_ext h])
  | dial =>
    cases htab with
    | others hl => exact hl.spares (by rw [dial_ext h])
  | request job =>
    rcases job with c | c | ⟨runId, c⟩ | serverId <;> cases h
    all_goals exact (ExtStore.Leaves.refl _).spares rfl
  | tick | editBinary | editSecrets =>
    cases h
    exact (ExtStore.Leaves.refl _).spares rfl

end ExtSys

/-! ### Drivers -/

theorem Job.runId?_eq_some {job : Job} {id : String} :
    job.runId? = some id ↔ ∃ c, job = .research id c := by
  rcases job with c | c | ⟨runId, c⟩ | serverId <;> simp [Job.runId?]

/-- Whether a driver is at its call, which has brought nothing so far. -/
def Pc.calling : Pc → Bool
  | .ready | .admitted _ | .dialing | .called (.error _) => true
  | _ => false

/-- Whether a request still has steps to take. -/
def Pc.live : Pc → Bool
  | .over _ => false
  | _ => true

theorem Pc.live_of_calling {pc : Pc} (h : pc.calling = true) : pc.live = true := by
  rcases pc with _ | _ | _ | _ | _ | _ | _ <;> first | rfl | cases h

/-- What a driver does that its run's row does not show. -/
def PcStep (pc pc' : Pc) : Prop :=
  pc' = pc ∨ (pc.calling = true ∧ pc'.calling = true) ∨ (∃ key, pc = .waiting key) ∧ pc' = .ready

/-- Requests of which none drives a run but those that did. -/
structure Followed (l l' : List Task) : Prop where
  came {i : ℕ} {t' : Task} {id : String} (h : l'[i]? = some t') (hr : t'.job.runId? = some id) :
    ∃ t, l[i]? = some t ∧ t.job = t'.job ∧ PcStep t.pc t'.pc
  stays {i : ℕ} {t : Task} {id : String} (h : l[i]? = some t) (hr : t.job.runId? = some id) :
    ∃ t', l'[i]? = some t' ∧ t'.job = t.job ∧ PcStep t.pc t'.pc

namespace Followed

variable {l : List Task} {i : ℕ} {t t' : Task}

theorem refl (l : List Task) : Followed l l :=
  ⟨fun h _ => ⟨_, h, rfl, .inl rfl⟩, fun h _ => ⟨_, h, rfl, .inl rfl⟩⟩

theorem concat (ht : t.job.runId? = none) : Followed l (l ++ [t]) where
  came h hr := by
    rcases Slots.mem_getElem?_concat.1 h with h | ⟨-, rfl⟩
    · exact ⟨_, h, rfl, .inl rfl⟩
    · rw [ht] at hr
      cases hr
  stays h _ := ⟨_, Slots.mem_getElem?_concat.2 (.inl h), rfl, .inl rfl⟩

theorem set (hi : l[i]? = some t) (hjob : t'.job = t.job)
    (hpc : t.job.runId? = none ∨ PcStep t.pc t'.pc) : Followed l (l.set i t') := by
  have hstep : ∀ {id}, t.job.runId? = some id → PcStep t.pc t'.pc := by
    intro id hr
    rcases hpc with hpc | hpc
    · rw [hpc] at hr
      cases hr
    · exact hpc
  refine ⟨fun {j u id} h hr => ?_, fun {j u id} h hr => ?_⟩
  · rw [Slots.getElem?_set hi] at h
    split_ifs at h with hj
    · obtain rfl := Option.some.inj h
      exact ⟨t, hj ▸ hi, hjob.symm, hstep (hjob ▸ hr)⟩
    · exact ⟨u, h, rfl, .inl rfl⟩
  · by_cases hj : j = i
    · subst hj
      obtain rfl : t = u := Option.some.inj (hi.symm.trans h)
      refine ⟨t', ?_, hjob, hstep hr⟩
      rw [Slots.getElem?_set hi, if_pos rfl]
    · refine ⟨u, ?_, rfl, .inl rfl⟩
      rw [Slots.getElem?_set hi, if_neg hj]
      exact h

end Followed

namespace Task

variable {t : Task} {r : Except OrchdMcpError (String × String)}

theorem finish_pc {id : String} (h : t.job.runId? = some id) : (t.finish r).pc = .called r := by
  obtain ⟨c, hc⟩ := Job.runId?_eq_some.1 h
  simp [finish, hc]

/-- A call that brings nothing leaves its run's row. -/
theorem finish_error {error : OrchdMcpError} (h : t.pc.calling = true) :
    t.job.runId? = none ∨ PcStep t.pc (t.finish (.error error)).pc := by
  rcases hr : t.job.runId? with _ | id
  · exact .inl rfl
  · rw [finish_pc hr]
    exact .inr (.inr (.inl ⟨h, rfl⟩))

end Task

namespace ExtSys

variable {host : ExtHost} {s s' : ExtSys}

theorem resolveKey_followed {i : ℕ} (h : s.resolveKey i = some s') :
    Followed s.tasks s'.tasks := by
  simp only [resolveKey, Option.bind_eq_bind, Option.bind_eq_some_iff] at h
  obtain ⟨t, hi, ⟨projectId, serverId⟩, -, h⟩ := h
  split at h
  · rename_i hguard
    have hnone : t.job.runId? = none := by
      rcases hj : t.job with c | c | ⟨runId, c⟩ | serverId <;> rw [hj] at hguard
      · rfl
      · rfl
      · cases hguard
      · rfl
    split at h <;> cases h
    · exact .set hi rfl (.inl hnone)
    · exact .set hi rfl (.inl hnone)
  · cases h

theorem lock_followed {i : ℕ} (h : s.lock i = some s') : Followed s.tasks s'.tasks := by
  simp only [lock, Option.bind_eq_bind, Option.bind_eq_some_iff] at h
  obtain ⟨t, hi, h⟩ := h
  split at h
  · rename_i key hpc
    split_ifs at h
    cases h
    exact .set hi rfl (.inr (.inr (.inr ⟨⟨key, hpc⟩, rfl⟩)))
  · cases h

theorem dial_followed {i : ℕ} (h : s.dial host i = some s') : Followed s.tasks s'.tasks := by
  simp only [dial, Option.bind_eq_bind, Option.bind_eq_some_iff] at h
  obtain ⟨t, hi, h⟩ := h
  split at h
  · rename_i pass hpc
    have hcalling : t.pc.calling = true := by rw [hpc]; rfl
    split at h
    · split_ifs at h <;> cases h
      · exact .set hi rfl (.inr (.inr (.inl ⟨hcalling, rfl⟩)))
      · exact .set hi Task.finish_job (Task.finish_error hcalling)
    · cases h
      exact .set hi rfl (.inr (.inr (.inl ⟨hcalling, rfl⟩)))
  · cases h

/-- What a connect is answered is of no run. -/
theorem answer_followed {i : ℕ} {a : Answer} (ha : (ExtAction.answer i a).common = true)
    (h : s.answer host i a = some s') : Followed s.tasks s'.tasks := by
  simp only [answer, Option.bind_eq_bind, Option.bind_eq_some_iff] at h
  obtain ⟨t, hi, h⟩ := h
  split at h
  · rename_i hjob
    have hnone : t.job.runId? = none := by rw [hjob]; rfl
    split at h <;> cases h
    · exact .set hi Task.finish_job (.inl hnone)
    · exact .set hi Task.finish_job (.inl hnone)
  · rename_i hjob
    cases h
    exact .set hi Task.finish_job (.inl (by rw [hjob]; rfl))
  · cases ha
  · cases h

theorem common_followed {a : ExtAction} (ha : a.common = true) (h : s.step host a = some s') :
    Followed s.tasks s'.tasks := by
  cases a with
  | startRun | setRunning | authorize | settle => cases ha
  | request job =>
    rcases job with c | c | ⟨runId, c⟩ | serverId <;> cases h
    all_goals exact .concat rfl
  | resolveKey i => exact resolveKey_followed h
  | lock i => exact lock_followed h
  | dial i => exact dial_followed h
  | answer i a => exact answer_followed ha h
  | _ =>
    cases h
    exact .refl _

end ExtSys

end BuilderPro
