import BuilderPro.App.WorkflowDrafts

/-!
# What an edit keeps of a draft

The editor's own check is the daemon's but for the length of the name and the default agent
(`validateWorkflow_request`), and no control brings anything else into a draft that the daemon
refuses (`step_sound`).
-/

namespace BuilderPro

open Results

/-- What the daemon asks of a stage beside its name and its prompt. -/
structure Stage.Sound (stage : Stage) : Prop where
  id : stage.id ≠ ""
  agent : ∀ a, stage.agent = some a → a ∈ knownAgents
  skillIds : "" ∉ stage.skillIds
  outputs : "" ∉ stage.outputs

theorem any_beq_empty {l : List String} : ¬ l.any (· == "") = true ↔ "" ∉ l := by
  simp

theorem validateStages_eq_ok {seen : List String} {stages : List Stage} :
    validateStages seen stages = .ok () ↔
      (∀ stage ∈ stages, stage.Sound ∧ stage.name ≠ "" ∧ stage.prompt ≠ "")
        ∧ (stages.map Stage.id).Nodup ∧ ∀ stage ∈ stages, stage.id ∉ seen := by
  induction stages generalizing seen with
  | nil => simp [validateStages]
  | cons stage stages ih =>
    have hagent : ¬ (stage.agent.map fun a => !knownAgents.contains a).getD false = true ↔
        ∀ a, stage.agent = some a → a ∈ knownAgents := by
      rcases stage.agent with _ | a <;> simp
    have hseen : ¬ seen.contains stage.id = true ↔ stage.id ∉ seen := by simp
    simp only [validateStages, ite_error_eq_ok, any_beq_empty, hagent, hseen, ih,
      List.forall_mem_cons, List.map_cons, List.nodup_cons, List.mem_map]
    constructor
    · rintro ⟨hid, hs, hname, hprompt, ha, hskills, houts, hall, hnodup, hnew⟩
      have hnotin : ¬ ∃ x ∈ stages, x.id = stage.id := by
        rintro ⟨x, hx, he⟩
        exact hnew x hx (he ▸ List.mem_cons_self)
      exact ⟨⟨⟨⟨hid, ha, hskills, houts⟩, hname, hprompt⟩, hall⟩, ⟨hnotin, hnodup⟩, hs,
        fun x hx h => hnew x hx (List.mem_cons_of_mem _ h)⟩
    · rintro ⟨⟨⟨⟨hid, ha, hskills, houts⟩, hname, hprompt⟩, hall⟩, ⟨hnotin, hnodup⟩, hs, hnew⟩
      exact ⟨hid, hs, hname, hprompt, ha, hskills, houts, hall, hnodup,
        fun x hx h => (List.mem_cons.1 h).elim (fun he => hnotin ⟨x, hx, he⟩) (hnew x hx)⟩

theorem validateSupervisor_eq_ok {c : SupervisorConfig} :
    validateSupervisor c = .ok () ↔ "" ∉ c.delegatedClasses ∧ "" ∉ c.customRules
      ∧ ¬ (c.enabled = true ∧ c.delegatedClasses = []) := by
  simp only [validateSupervisor, ite_error_eq_ok, any_beq_empty, Bool.and_eq_true,
    List.isEmpty_iff, and_true]

theorem mem_knownAgents_iff {a : String} :
    ¬ (a = "" ∨ (!knownAgents.contains a) = true) ↔ a ∈ knownAgents := by
  simp only [Bool.not_eq_true', List.contains_eq_mem, decide_eq_false_iff_not, not_or, not_not]
  refine and_iff_right_of_imp fun h he => ?_
  rw [he] at h
  revert h
  decide

theorem validateWorkflow_eq_ok {w : WorkflowFields} : validateWorkflow w = .ok () ↔
    w.name ≠ "" ∧ w.name.utf8ByteSize ≤ workflowNameMaxLen
      ∧ ¬ (w.scope = .project ∧ w.projectId.getD "" = "") ∧ w.defaultAgent ∈ knownAgents
      ∧ w.stages ≠ [] ∧ validateStages [] w.stages = .ok () ∧ "" ∉ w.globalSkillIds
      ∧ validateSupervisor w.supervisor = .ok () := by
  unfold validateWorkflow
  simp only [throw_bind, ite_throw_eq_ok, bind_eq_ok, mem_knownAgents_iff, any_beq_empty, not_lt,
    Unique.exists_iff, PUnit.default_eq_unit, ne_eq]

theorem ite_some_eq_none {α : Type} {c : Prop} [Decidable c] {a : α} {x : Option α} :
    (if c then some a else x) = none ↔ ¬ c ∧ x = none := by
  split_ifs with h <;> simp [h]

namespace WorkflowDraft

variable {d : WorkflowDraft}

/-- What the daemon asks of a workflow and the editor does not look at, the default agent and the
length of the name aside. -/
structure Sound (d : WorkflowDraft) : Prop where
  stages : ∀ stage ∈ d.stages, stage.Sound
  nodup : (d.stages.map Stage.id).Nodup
  globalSkillIds : "" ∉ d.globalSkillIds
  delegatedClasses : "" ∉ d.supervisor.delegatedClasses
  customRules : "" ∉ d.supervisor.customRules
  projectId : d.scope = .global → d.projectId = none

/-- What the editor checks. -/
theorem validateWorkflow_eq_none : d.validateWorkflow = none ↔
    jsTrim d.name ≠ "" ∧ ¬ (d.scope = .project ∧ d.projectId.getD "" = "") ∧ d.stages ≠ []
      ∧ (∀ stage ∈ d.stages, jsTrim stage.name ≠ "" ∧ jsTrim stage.prompt ≠ "")
      ∧ ¬ (d.supervisor.enabled = true ∧ d.supervisor.delegatedClasses = []) := by
  have hproject : (d.projectId = none ∨ d.projectId = some "") ↔ d.projectId.getD "" = "" := by
    rcases d.projectId with _ | q <;> simp
  have hstages : d.stages.find? (fun stage => jsTrim stage.name = "" ∨ jsTrim stage.prompt = "")
      = none ↔ ∀ stage ∈ d.stages, jsTrim stage.name ≠ "" ∧ jsTrim stage.prompt ≠ "" := by
    simp
  simp only [validateWorkflow, ite_some_eq_none, hproject, ← hstages]
  rcases d.stages.find? _ with _ | stage <;> simp

/-- The request names a project in the project scope, as the draft does. -/
theorem request_projectId : (d.request.scope = .project ∧ d.request.projectId.getD "" = "") ↔
    d.scope = .project ∧ d.projectId.getD "" = "" := by
  unfold request
  cases d.scope <;> simp

/-- What the daemon's check asks of the request. -/
theorem validateWorkflow_request : BuilderPro.validateWorkflow d.request = .ok () ↔
    (d.name ≠ "" ∧ ¬ (d.scope = .project ∧ d.projectId.getD "" = "") ∧ d.stages ≠ []
      ∧ (∀ stage ∈ d.stages, stage.Sound ∧ stage.name ≠ "" ∧ stage.prompt ≠ "")
      ∧ (d.stages.map Stage.id).Nodup ∧ "" ∉ d.globalSkillIds
      ∧ validateSupervisor d.supervisor = .ok ())
      ∧ d.name.utf8ByteSize ≤ workflowNameMaxLen ∧ d.defaultAgent ∈ knownAgents := by
  rw [validateWorkflow_eq_ok, request_projectId, validateStages_eq_ok]
  simp only [request, List.not_mem_nil, not_false_eq_true, implies_true, and_true]
  tauto

end WorkflowDraft

/-! ### Edits keep what the daemon asks -/

theorem jsTrim_empty : jsTrim "" = "" := by decide

theorem notMem_toggleId {ids : List String} {id : String} {checked : Bool} (h : "" ∉ ids)
    (hid : checked = true → id ≠ "") : "" ∉ toggleId ids id checked := by
  unfold toggleId
  split_ifs with hc
  · simp only [List.mem_append, List.mem_singleton, not_or]
    exact ⟨h, (hid hc).symm⟩
  · exact fun hmem => h (List.mem_of_mem_filter hmem)

theorem notMem_arrayFromSet {l new : List String} (h : "" ∉ l) (hnew : "" ∉ new) :
    "" ∉ arrayFromSet (l ++ new) := by
  unfold arrayFromSet
  simp only [List.mem_eraseDups, List.mem_append, not_or]
  exact ⟨h, hnew⟩

theorem commitChip_ne {draft v : String} (h : commitChip draft = some v) : v ≠ "" := by
  unfold commitChip at h
  simp only [] at h
  split_ifs at h with hv
  cases h
  exact hv

namespace Stage

variable {stage : Stage} {e : StageEdit} {skills : List String}

@[simp] theorem id_apply : (e.apply stage).id = stage.id := by
  cases e <;> try rfl
  simp only [StageEdit.apply]
  split_ifs <;> rfl

theorem Sound.apply (h : stage.Sound) (hskills : "" ∉ skills)
    (ho : e.offered skills stage = true) : (e.apply stage).Sound := by
  refine ⟨by rw [id_apply]; exact h.id, ?_, ?_, ?_⟩
  · cases e with
    | agent value =>
      simp only [StageEdit.offered, decide_eq_true_eq] at ho
      intro a ha
      simp only [StageEdit.apply] at ha
      split_ifs at ha with hv
      cases ha
      exact (ho.resolve_left hv).elim (fun hk => hk) (h.agent value)
    | commitOutput outputDraft =>
      simp only [StageEdit.apply]
      split_ifs <;> exact h.agent
    | _ => exact h.agent
  · cases e with
    | toggleSkill id checked =>
      simp only [StageEdit.offered, decide_eq_true_eq] at ho
      exact notMem_toggleId h.skillIds fun _ he => hskills (he ▸ ho)
    | removeSkill id => exact fun hmem => h.skillIds (List.mem_of_mem_filter hmem)
    | commitOutput outputDraft =>
      simp only [StageEdit.apply]
      split_ifs <;> exact h.skillIds
    | _ => exact h.skillIds
  · cases e with
    | commitOutput outputDraft =>
      simp only [StageEdit.apply]
      split_ifs with hv
      · exact h.outputs
      · simp only [List.mem_append, List.mem_singleton, not_or]
        exact ⟨h.outputs, fun he => hv (.inl he.symm)⟩
    | removeOutput out => exact fun hmem => h.outputs (List.mem_of_mem_filter hmem)
    | _ => exact h.outputs

theorem sound_newStage (uuid : String) : (newStage uuid).Sound := by
  refine ⟨fun h => ?_, nofun, List.not_mem_nil, List.not_mem_nil⟩
  have := congrArg String.length h
  simp [newStage, newStageId] at this

end Stage

namespace WorkflowDraft

variable {d : WorkflowDraft} {skills : List String}

@[simp] theorem stages_apply (e : DraftEdit) : (e.apply d).stages = d.stages := by
  unfold DraftEdit.apply
  split <;> try rfl
  all_goals split <;> rfl

theorem Sound.apply {e : DraftEdit} (h : d.Sound) (hskills : "" ∉ skills)
    (ho : e.offered skills d = true) : (e.apply d).Sound := by
  cases e with
  | name | description | defaultAgent | enable | instruction =>
    exact ⟨h.stages, h.nodup, h.globalSkillIds, h.delegatedClasses, h.customRules, h.projectId⟩
  | scope sc =>
    refine ⟨h.stages, h.nodup, h.globalSkillIds, h.delegatedClasses, h.customRules, ?_⟩
    rintro rfl
    rfl
  | project value =>
    refine ⟨h.stages, h.nodup, h.globalSkillIds, h.delegatedClasses, h.customRules, ?_⟩
    simp only [DraftEdit.offered, decide_eq_true_eq] at ho
    exact fun hg => absurd (ho.symm.trans hg) nofun
  | toggleGlobalSkill id checked =>
    refine ⟨h.stages, h.nodup, ?_, h.delegatedClasses, h.customRules, h.projectId⟩
    simp only [DraftEdit.offered, decide_eq_true_eq] at ho
    refine notMem_toggleId h.globalSkillIds fun hc he => ?_
    rw [hc] at ho
    exact hskills (he ▸ ho.resolve_right nofun)
  | addClass draft =>
    simp only [DraftEdit.apply]
    rcases hv : commitChip draft with _ | v
    · exact h
    · refine ⟨h.stages, h.nodup, h.globalSkillIds, ?_, h.customRules, h.projectId⟩
      exact notMem_arrayFromSet h.delegatedClasses (by simpa using (commitChip_ne hv).symm)
  | removeClass cls =>
    refine ⟨h.stages, h.nodup, h.globalSkillIds, ?_, h.customRules, h.projectId⟩
    exact fun hmem => h.delegatedClasses (List.mem_of_mem_filter hmem)
  | applyRecommendedScope =>
    refine ⟨h.stages, h.nodup, h.globalSkillIds, ?_, h.customRules, h.projectId⟩
    exact notMem_arrayFromSet h.delegatedClasses (by decide)
  | addRule draft =>
    simp only [DraftEdit.apply]
    rcases hv : commitChip draft with _ | v
    · exact h
    · refine ⟨h.stages, h.nodup, h.globalSkillIds, h.delegatedClasses, ?_, h.projectId⟩
      exact notMem_arrayFromSet h.customRules (by simpa using (commitChip_ne hv).symm)
  | removeRule v =>
    refine ⟨h.stages, h.nodup, h.globalSkillIds, h.delegatedClasses, ?_, h.projectId⟩
    exact fun hmem => h.customRules (List.mem_of_mem_filter hmem)

/-- A draft with other stages, as sound as its own. -/
theorem Sound.withStages {stages : List Stage} (h : d.Sound) (hs : ∀ x ∈ stages, x.Sound)
    (hn : (stages.map Stage.id).Nodup) : ({ d with stages } : WorkflowDraft).Sound :=
  ⟨hs, hn, h.globalSkillIds, h.delegatedClasses, h.customRules, h.projectId⟩

end WorkflowDraft

theorem swapStages_perm (stages : List Stage) (i j : ℕ) : (swapStages stages i j).Perm stages := by
  unfold swapStages
  split
  · rename_i x y hx hy
    obtain ⟨hi, rfl⟩ := List.getElem?_eq_some_iff.1 hx
    obtain ⟨hj, rfl⟩ := List.getElem?_eq_some_iff.1 hy
    exact List.set_set_perm hi hj
  · exact .refl _

namespace Editor

variable {s t : Editor} {a : EditorEvent}

/-- The stages change by an edit of one of them, a new one, one less, or their order. -/
theorem step_sound (hs : s.draft.Sound) (hskills : "" ∉ s.skills) (ha : s.Promised a)
    (h : s.step a = some t) : t.draft.Sound ∧ "" ∉ t.skills := by
  cases a with
  | edit e =>
    simp only [step, Option.ite_none_right_eq_some, Option.some.injEq] at h
    obtain ⟨ho, rfl⟩ := h
    exact ⟨hs.apply hskills ho, hskills⟩
  | editStage e =>
    simp only [step] at h
    split at h
    · rename_i index stage hindex hstage
      simp only [Option.ite_none_right_eq_some, Option.some.injEq] at h
      obtain ⟨ho, rfl⟩ := h
      rw [openStage?, hindex, Option.bind_some, List.getElem?_eq_some_iff] at hstage
      obtain ⟨hlt, rfl⟩ := hstage
      refine ⟨hs.withStages (fun x hx => ?_) ?_, hskills⟩
      · rcases List.mem_or_eq_of_mem_set hx with hx | rfl
        · exact hs.stages x hx
        · exact (hs.stages _ (List.getElem_mem hlt)).apply hskills ho
      · have hlt' : index < (s.draft.stages.map Stage.id).length := by simpa using hlt
        have hids : (s.draft.stages.map Stage.id)[index] = s.draft.stages[index].id :=
          List.getElem_map _
        rw [List.map_set, Stage.id_apply, ← hids, List.set_getElem_self]
        exact hs.nodup
    · cases h
  | addStage uuid =>
    cases h
    refine ⟨hs.withStages (List.forall_mem_append.2 ⟨hs.stages, ?_⟩) ?_, hskills⟩
    · exact List.forall_mem_singleton.2 (Stage.sound_newStage uuid)
    · rw [List.map_append, List.map_singleton, List.nodup_append]
      refine ⟨hs.nodup, List.nodup_singleton _, fun id hid new hnew => ?_⟩
      obtain ⟨x, hx, rfl⟩ := List.mem_map.1 hid
      rw [List.mem_singleton.1 hnew]
      exact ha x hx
  | removeStage =>
    simp only [step] at h
    split at h
    · rename_i index hindex
      cases h
      have hsub := List.eraseIdx_sublist s.draft.stages index
      exact ⟨hs.withStages (fun x hx => hs.stages x (hsub.mem hx)) (hs.nodup.sublist (hsub.map _)),
        hskills⟩
    · cases h
  | moveStage index up =>
    simp only [step, Option.ite_none_right_eq_some, Option.some.injEq] at h
    obtain ⟨-, rfl⟩ := h
    have hto : ∀ target, (s.moveTo index target).draft.Sound := by
      intro target
      have hperm := swapStages_perm s.draft.stages index target
      exact hs.withStages (fun x hx => hs.stages x (hperm.mem_iff.1 hx))
        ((hperm.map _).nodup_iff.2 hs.nodup)
    unfold moveStage
    split_ifs
    · exact ⟨hs, hskills⟩
    · exact ⟨hto _, hskills⟩
    · exact ⟨hs, hskills⟩
    · exact ⟨hto _, hskills⟩
  | toggleDetail | closeDetail | saveFailed =>
    simp only [step, Option.ite_none_right_eq_some, Option.some.injEq] at h
    obtain ⟨-, rfl⟩ := h
    exact ⟨hs, hskills⟩
  | refreshSkills skills =>
    cases h
    exact ⟨hs, ha⟩
  | save =>
    simp only [step, Option.ite_none_right_eq_some, Option.some.injEq] at h
    obtain ⟨-, rfl⟩ := h
    unfold handleSave
    split <;> exact ⟨hs, hskills⟩

/-- A default agent that is picked is known, and only a pick changes it. -/
theorem step_defaultAgent (h : s.step a = some t) : t.draft.defaultAgent ∈ knownAgents ↔
    s.draft.defaultAgent ∈ knownAgents ∨ ∃ agent, a = .edit (.defaultAgent agent) := by
  cases a with
  | edit e =>
    simp only [step, Option.ite_none_right_eq_some, Option.some.injEq] at h
    obtain ⟨ho, rfl⟩ := h
    cases e with
    | defaultAgent agent =>
      simp only [DraftEdit.offered, decide_eq_true_eq] at ho
      exact iff_of_true ho (.inr ⟨agent, rfl⟩)
    | addClass draft | addRule draft =>
      simp only [update, DraftEdit.apply]
      split <;> simp
    | _ => simp [update, DraftEdit.apply]
  | editStage | removeStage =>
    simp only [step] at h
    split at h <;> simp at h
    simp [← h, update]
  | addStage uuid =>
    cases h
    simp [update]
  | moveStage index up =>
    simp only [step, Option.ite_none_right_eq_some, Option.some.injEq] at h
    obtain ⟨-, rfl⟩ := h
    unfold moveStage
    split_ifs <;> simp [moveTo, update]
  | toggleDetail | closeDetail | saveFailed =>
    simp only [step, Option.ite_none_right_eq_some, Option.some.injEq] at h
    obtain ⟨-, rfl⟩ := h
    simp
  | refreshSkills =>
    cases h
    simp
  | save =>
    simp only [step, Option.ite_none_right_eq_some, Option.some.injEq] at h
    obtain ⟨-, rfl⟩ := h
    unfold handleSave
    split <;> simp

theorem run_defaultAgent {as : List EditorEvent} (h : Runs.run step s as = some t) :
    t.draft.defaultAgent ∈ knownAgents ↔
      s.draft.defaultAgent ∈ knownAgents ∨ ∃ agent, .edit (.defaultAgent agent) ∈ as := by
  induction as generalizing s with
  | nil =>
    obtain rfl : s = t := by simpa using h
    simp
  | cons a as ih =>
    rw [Runs.run_cons, Option.bind_eq_some_iff] at h
    obtain ⟨u, hu, h⟩ := h
    rw [ih h, step_defaultAgent hu, or_assoc, ← exists_or]
    simp only [List.mem_cons, eq_comm]

end Editor

end BuilderPro
