import BuilderPro.Orchd.Frozen

/-!
# An archived project stays as it is

The verbs on files, and the runs: an archived project's rows stay as they are exactly as long as no
request takes a workflow of the project elsewhere, and no deletion reaches into the project.
-/

namespace BuilderPro

open Results Store

/-- A workflow of a project. -/
def Store.isWorkflowOf (s : Store) (p id : String) : Bool :=
  (s.rowsOf WorkflowRow p).any fun w => w.id == id

theorem Store.isWorkflowOf_eq_true {s : Store} {p id : String} :
    s.isWorkflowOf p id = true ↔ ∃ w, s.workflows.lookup id = some w ∧ w.projectId = some p := by
  simp only [isWorkflowOf, rowsOf, List.any_eq_true, List.mem_filter, decide_eq_true_eq,
    KeyedTable.lookup_eq_some, beq_iff_eq]
  constructor
  · rintro ⟨w, ⟨hw, hp⟩, rfl⟩
    exact ⟨w, ⟨hw, rfl⟩, hp⟩
  · rintro ⟨w, ⟨hw, hid⟩, hp⟩
    exact ⟨w, ⟨hw, hp⟩, hid⟩

namespace Orchd

variable {host : Host} {o : Orchd} {p q : String}

theorem upsertRuleset_kept (h : o.db.Archived p) {scope : RuleScope} {pid content : Option String}
    {path : Option FilePath} {policy : Option PolicyRules} {now : ℤ} {r : Orchd × RuleSet}
    (hr : o.upsertRuleset host scope pid content path policy now = .ok r) : o.db.Kept p r.1.db := by
  simp only [upsertRuleset, bind_eq_ok, pure_eq_ok] at hr
  obtain ⟨-, -, pol, -, u, hu, row, hrow, ⟨files, hash⟩, -, rfl⟩ := hr
  obtain ⟨hlookup, -, rfl⟩ := loadRulesetByScope_eq_ok hrow
  have hp := h.ne_of_optional hu
  exact h.replaceRow (y := row) hlookup hp hp

theorem acknowledge_kept {ρ : Type} [ProjectChild ρ] [FramedChild ρ] (h : o.db.Archived p)
    {id : String} {path : ρ → FilePath} {setHash : String → ρ → ρ} {r : Orchd × ρ}
    (hr : o.acknowledge host id path setHash = .ok r)
    (hset : ∀ hash x, ProjectChild.id (setHash hash x) = ProjectChild.id x
      ∧ ProjectChild.projectId (setHash hash x) = ProjectChild.projectId x) :
    o.db.Kept p r.1.db := by
  simp only [acknowledge, bind_eq_ok, pure_eq_ok] at hr
  obtain ⟨row, -, content, -, ⟨s, x⟩, hs, rfl⟩ := hr
  exact (h.updateRow hs (hset _)).1

theorem insertGlobalRuleset_kept {s : Store} (h : s.Archived p) {r : RuleSet}
    (hr : r.projectId = none) : s.Kept p (insertGlobalRuleset s r) := by
  unfold insertGlobalRuleset
  split_ifs
  · exact h.kept_refl
  · split
    · rename_i u hu
      refine h.setTable (ρ := RuleSet) (u := u) ?_
      rw [KeyedTable.filter_insert hu]
      simp [ProjectChild.projectId, rowsOf, ProjectChild.table, hr]
    · exact h.kept_refl

theorem ensureGlobalRuleset_kept (h : o.db.Archived p) {template id : String} {now : ℤ} {o' : Orchd}
    (hr : o.ensureGlobalRuleset host template id now = .ok o') : o.db.Kept p o'.db := by
  simp only [ensureGlobalRuleset, bind_eq_ok, pure_eq_ok] at hr
  obtain ⟨files, -, content, -, rfl⟩ := hr
  exact insertGlobalRuleset_kept h rfl

theorem upsertDoc_kept (h : o.db.Archived p) {name content id : String} {now : ℤ} {r : Orchd × Doc}
    (hr : o.upsertDoc host q name content id now = .ok r) : o.db.Kept p r.1.db := by
  simp only [upsertDoc, bind_eq_ok] at hr
  obtain ⟨-, -, u, hu, hr⟩ := hr
  have hq : (some q : Option String) ≠ some p := by simpa using h.ne_of_active hu
  split at hr
  · rename_i doc hdoc
    simp only [bind_eq_ok, pure_eq_ok] at hr
    obtain ⟨⟨files, hash⟩, -, rfl⟩ := hr
    obtain ⟨hlookup, rfl, -⟩ := findDoc_eq_some hdoc
    exact h.replaceRow (y := doc) hlookup hq hq
  · simp only [bind_eq_ok] at hr
    obtain ⟨row, -, hr⟩ := hr
    split at hr
    · cases hr
    · simp only [bind_eq_ok, pure_eq_ok] at hr
      obtain ⟨⟨files, hash⟩, -, t, ht, rfl⟩ := hr
      exact h.insertRow ht hq

theorem deleteDoc_kept (h : o.db.Archived p) {id : String} {r : Orchd × Doc}
    (hr : o.deleteDoc host id = .ok r) : o.db.Kept p r.1.db := by
  simp only [deleteDoc, bind_eq_ok, pure_eq_ok] at hr
  obtain ⟨doc, hdoc, files, -, rfl⟩ := hr
  have hrow : o.db.deleteRow Doc id = .ok (o.db.eraseRow Doc id) := by
    simp [Store.deleteRow, hdoc]
  exact h.deleteRow hrow

theorem deleteWorkflow_kept (h : o.db.Archived p) {id : String} {o' : Orchd}
    (hr : o.deleteWorkflow host id = .ok o') : o.db.Kept p o'.db := by
  simp only [deleteWorkflow, bind_eq_ok, pure_eq_ok] at hr
  obtain ⟨row, hrow, files, -, rfl⟩ := hr
  have hdel : o.db.deleteRow WorkflowRow id = .ok (o.db.eraseRow WorkflowRow id) := by
    simp [Store.deleteRow, hrow]
  exact h.deleteRow hdel

theorem storeWorkflow_kept_iff {s : Store} (h : s.Archived p) {x : WorkflowRow}
    {r : Store × WorkflowRow} (hr : storeWorkflow s x = .ok r) (hx : x.projectId ≠ some p) :
    r.1.Archived p ∧ (r.1.projectRows p = s.projectRows p ↔ s.isWorkflowOf p x.id = false) := by
  unfold storeWorkflow at hr
  split at hr
  · rename_i old hold
    cases hr
    refine ⟨h.of_projects rfl, fun he => ?_, fun hw => ?_⟩
    · -- the row of the id has left the project
      have hrows := FramedChild.rowsOf_eq (ρ := WorkflowRow) _ _ _ he
      rw [Bool.eq_false_iff, ne_eq, isWorkflowOf_eq_true]
      rintro ⟨w, hw, hp⟩
      have hmem : w ∈ s.rowsOf WorkflowRow p :=
        List.mem_filter.2 ⟨(KeyedTable.lookup_eq_some.1 hw).1, decide_eq_true hp⟩
      rw [← hrows] at hmem
      obtain ⟨hmem, -⟩ := List.mem_filter.1 hmem
      rcases KeyedTable.mem_replace.1 hmem with ⟨rfl, -⟩ | ⟨-, hne⟩
      · exact hx hp
      · exact hne (KeyedTable.key_eq hw)
    · have hp : old.projectId ≠ some p := by
        intro hp
        rw [Bool.eq_false_iff, ne_eq, isWorkflowOf_eq_true] at hw
        exact hw ⟨old, hold, hp⟩
      exact (h.replaceRow (x := { x with createdAt := old.createdAt }) (y := old) hold hp hx).rows
  · rename_i hnone
    simp only [map_eq_ok] at hr
    obtain ⟨t, ht, rfl⟩ := hr
    have hk := h.insertRow ht hx
    refine ⟨hk.archived, iff_of_true hk.rows ?_⟩
    rw [Bool.eq_false_iff, ne_eq, isWorkflowOf_eq_true]
    rintro ⟨w, hw, -⟩
    rw [hnone] at hw
    cases hw

/-- An `ON CONFLICT DO UPDATE` goes through. -/
theorem storeWorkflow_isOk (s : Store) (x : WorkflowRow) : ∃ r, storeWorkflow s x = .ok r := by
  unfold storeWorkflow
  split
  · exact ⟨_, rfl⟩
  · rename_i hnone
    obtain ⟨t, ht⟩ : ∃ t, s.workflows.insert x = some t := by
      rw [← Option.isSome_iff_exists, Option.isSome_iff_ne_none]
      intro hi
      unfold KeyedTable.insert at hi
      split_ifs at hi with hk
      have := KeyedTable.exists_row.1 hk
      rw [hnone] at this
      cases this
    refine ⟨(ProjectChild.setTable s t, x), ?_⟩
    have : s.insertRow x (.sql "UNIQUE constraint failed: workflow.id")
        = .ok (ProjectChild.setTable s t) := by
      unfold Store.insertRow
      simp only [ProjectChild.table, ht]
    rw [this]
    rfl

/-- `upsert_workflow` asks for the project a workflow goes to, not for the one it comes from. -/
theorem upsertWorkflow_kept_iff (h : o.db.Archived p) {id newId : String} {w : WorkflowFields}
    {now : ℤ} {r : Orchd × WorkflowRow} (hr : o.upsertWorkflow host id w newId now = .ok r) :
    r.1.db.Archived p ∧ (r.1.db.projectRows p = o.db.projectRows p
      ↔ o.db.isWorkflowOf p (workflowId id newId) = false) := by
  simp only [upsertWorkflow, bind_eq_ok, pure_eq_ok] at hr
  obtain ⟨-, -, u, hu, existing, -, ⟨files, hash⟩, -, ⟨t, row⟩, hrow, rfl⟩ := hr
  exact storeWorkflow_kept_iff h hrow (h.ne_of_optional hu)

/-! ### Requests -/

/-- A request that is let through and changes rows of the project: the guards ask for the project of
the row a request is given, and the deletion goes on from there, or the workflow comes from
elsewhere. -/
def ReachesInto (host : Host) (p : String) (o : Orchd) : DomainRequest → Prop
  | .deleteGoal id =>
    (∃ g : Goal, o.db.loadActive id = .ok g ∧ g.kind ≠ .strategic)
      ∧ ∃ x ∈ o.db.rowsOf Goal p, o.db.underGoal id x.id = true
  | .deleteTask id =>
    (∃ x : DomainTask, o.db.loadActive id = .ok x)
      ∧ ∃ x ∈ o.db.rowsOf DomainTask p, o.db.underTask id x.id = true
  | .deleteNode id expected =>
    (∃ n : GraphNode, o.db.loadActive id = .ok n ∧ ensureNodeProject n.projectId expected = .ok ())
      ∧ ∃ e ∈ o.db.edgesOf p, e.sourceNodeId = id ∨ e.targetNodeId = id
  | .upsertWorkflow id w newId now =>
    (validateWorkflow w = .ok () ∧ o.db.ensureOptionalProjectActive w.effectiveProjectId = .ok ()
      ∧ ∃ old, existingWorkflow o.db id = .ok old
      ∧ ∃ f, o.writeWorkflow host old (workflowToWrite host old (workflowId id newId) w now) = .ok f)
      ∧ o.db.isWorkflowOf p (workflowId id newId) = true
  | _ => False

theorem deleteNode_admitted {s t : Store} {id : String} {expected : Option String}
    (h : s.deleteNode id expected = .ok t) :
    ∃ n : GraphNode, s.loadActive id = .ok n ∧ ensureNodeProject n.projectId expected = .ok () := by
  simp only [Store.deleteNode, Store.deleteRow, bind_eq_ok, pure_eq_ok] at h
  obtain ⟨n, hn, _, hexp, _, ⟨m, hm, -⟩, -⟩ := h
  have : m = n := by
    simp only [Store.loadActive, hn, bind_eq_ok, pure_eq_ok, Except.ok.injEq] at hm
    obtain ⟨-, rfl, -, -, rfl⟩ := hm
    rfl
  exact ⟨n, this ▸ hm, hexp⟩

theorem upsertWorkflow_admitted {id newId : String} {w : WorkflowFields} {now : ℤ}
    {r : Orchd × WorkflowRow} (h : o.upsertWorkflow host id w newId now = .ok r) :
    validateWorkflow w = .ok () ∧ o.db.ensureOptionalProjectActive w.effectiveProjectId = .ok ()
      ∧ ∃ old, existingWorkflow o.db id = .ok old
      ∧ ∃ f, o.writeWorkflow host old (workflowToWrite host old (workflowId id newId) w now)
        = .ok f := by
  simp only [upsertWorkflow, bind_eq_ok] at h
  obtain ⟨_, hw, _, hact, old, hold, f, hf, -⟩ := h
  exact ⟨hw, hact, old, hold, f, hf⟩

/-- A request to unarchive the project. -/
def Unarchives (p : String) (r : DomainRequest) : Prop := ∃ now, r = .unarchiveProject p now

/-- A request that is served leaves an archived project archived, and changes its rows exactly when
it reaches into the project. -/
theorem handle_kept_iff (h : o.db.Archived p) {r : DomainRequest} (hun : ¬ Unarchives p r)
    {o' : Orchd} (hr : o.handle host r = .ok o') :
    o'.db.Archived p
      ∧ (o'.db.projectRows p = o.db.projectRows p ↔ ¬ ReachesInto host p o r) := by
  have kept : o.db.Kept p o'.db → ReachesInto host p o r = False →
      o'.db.Archived p
        ∧ (o'.db.projectRows p = o.db.projectRows p ↔ ¬ ReachesInto host p o r) :=
    fun hk hf => ⟨hk.archived, iff_of_true hk.rows (by simp [hf])⟩
  cases r <;> simp only [handle, onStore_eq_ok, map_eq_ok] at hr
  case createProject =>
    obtain ⟨r, hr, rfl⟩ := hr
    exact kept (h.createProject hr) rfl
  case updateProject =>
    obtain ⟨r, hr, rfl⟩ := hr
    exact kept (h.updateProject hr) rfl
  case archiveProject =>
    obtain ⟨r, hr, rfl⟩ := hr
    exact kept (h.archiveProject hr) rfl
  case addProjectWorkspace =>
    obtain ⟨r, hr, rfl⟩ := hr
    exact kept (h.addProjectWorkspace hr) rfl
  case removeProjectWorkspace =>
    obtain ⟨r, hr, rfl⟩ := hr
    exact kept (h.removeProjectWorkspace hr) rfl
  case createGoal =>
    obtain ⟨r, hr, rfl⟩ := hr
    exact kept (h.createGoal hr) rfl
  case updateGoal =>
    obtain ⟨r, hr, rfl⟩ := hr
    exact kept (h.updateGoal hr) rfl
  case moveGoal =>
    obtain ⟨r, hr, rfl⟩ := hr
    exact kept (h.moveGoal hr) rfl
  case createIdea =>
    obtain ⟨r, hr, rfl⟩ := hr
    exact kept (h.createIdea hr) rfl
  case setIdeaProject =>
    obtain ⟨r, hr, rfl⟩ := hr
    exact kept (h.setIdeaProject hr) rfl
  case startResearchRun =>
    obtain ⟨r, hr, rfl⟩ := hr
    exact kept (h.startResearchRun hr) rfl
  case createInsight =>
    obtain ⟨r, hr, rfl⟩ := hr
    exact kept (h.createInsight hr) rfl
  case setInsightStatus =>
    obtain ⟨r, hr, rfl⟩ := hr
    exact kept (h.setInsightStatus hr) rfl
  case createTask =>
    obtain ⟨r, hr, rfl⟩ := hr
    exact kept (h.createTask hr) rfl
  case deleteIdea =>
    obtain ⟨r, hr, rfl⟩ := hr
    exact kept (h.deleteRow hr) rfl
  case deleteInsight =>
    obtain ⟨r, hr, rfl⟩ := hr
    exact kept (h.deleteRow hr) rfl
  case addNode =>
    obtain ⟨r, hr, rfl⟩ := hr
    exact kept (h.addNode hr) rfl
  case updateNode =>
    obtain ⟨r, hr, rfl⟩ := hr
    exact kept (h.updateNode hr) rfl
  case moveNode =>
    obtain ⟨r, hr, rfl⟩ := hr
    exact kept (h.moveNode hr) rfl
  case addEdge =>
    obtain ⟨r, hr, rfl⟩ := hr
    exact kept (h.addEdge hr) rfl
  case updateEdge =>
    obtain ⟨r, hr, rfl⟩ := hr
    exact kept (h.updateEdge hr) rfl
  case deleteEdge =>
    obtain ⟨r, hr, rfl⟩ := hr
    exact kept (h.deleteEdge hr) rfl
  case upsertRuleset =>
    obtain ⟨r, hr, rfl⟩ := hr
    exact kept (upsertRuleset_kept h hr) rfl
  case upsertDoc =>
    obtain ⟨r, hr, rfl⟩ := hr
    exact kept (upsertDoc_kept h hr) rfl
  case deleteDoc =>
    obtain ⟨r, hr, rfl⟩ := hr
    exact kept (deleteDoc_kept h hr) rfl
  case acknowledgeRuleFile =>
    obtain ⟨r, hr, rfl⟩ := hr
    exact kept (acknowledge_kept h hr fun _ _ => ⟨rfl, rfl⟩) rfl
  case acknowledgeDocFile =>
    obtain ⟨r, hr, rfl⟩ := hr
    exact kept (acknowledge_kept h hr fun _ _ => ⟨rfl, rfl⟩) rfl
  case setIdeaLifecycle =>
    obtain ⟨r, hr, rfl⟩ := hr
    exact kept ((h.updateRow hr fun _ => ⟨rfl, rfl⟩).1) rfl
  case setInsightFitVerdict =>
    obtain ⟨r, hr, rfl⟩ := hr
    exact kept ((h.updateRow hr fun _ => ⟨rfl, rfl⟩).1) rfl
  case setTaskStatus =>
    obtain ⟨r, hr, rfl⟩ := hr
    exact kept ((h.updateRow hr fun _ => ⟨rfl, rfl⟩).1) rfl
  case setTaskPriority =>
    obtain ⟨r, hr, rfl⟩ := hr
    exact kept ((h.updateRow hr fun _ => ⟨rfl, rfl⟩).1) rfl
  case updateIdea =>
    obtain ⟨r, hr, rfl⟩ := hr
    refine kept (h.updateRow hr fun x => ?_).1 rfl
    split_ifs <;> exact ⟨rfl, rfl⟩
  case updateInsight =>
    obtain ⟨r, hr, rfl⟩ := hr
    refine kept (h.updateRow hr fun x => ?_).1 rfl
    split_ifs <;> exact ⟨rfl, rfl⟩
  case updateTask =>
    obtain ⟨r, hr, rfl⟩ := hr
    refine kept (h.updateRow hr fun x => ?_).1 rfl
    split_ifs <;> exact ⟨rfl, rfl⟩
  case unarchiveProject id now =>
    obtain ⟨r, hr, rfl⟩ := hr
    refine kept (h.unarchiveProject hr ?_) rfl
    rintro rfl
    exact hun ⟨now, rfl⟩
  case setTaskRank =>
    obtain ⟨r, hr, rfl⟩ := hr
    simp only [Store.setTaskRank, ite_throw_eq_ok, throw_bind] at hr
    exact kept (h.updateRow hr.2 fun _ => ⟨rfl, rfl⟩).1 rfl
  case ensureGlobalRuleset => exact kept (ensureGlobalRuleset_kept h hr) rfl
  case deleteWorkflow => exact kept (deleteWorkflow_kept h hr) rfl
  case editFile =>
    cases hr
    exact kept h.kept_refl rfl
  case deleteGoal id =>
    obtain ⟨t, ht, rfl⟩ := hr
    refine ⟨(h.deleteGoal ht).1, (h.deleteGoal ht).2.trans ?_⟩
    simp only [Store.deleteGoal, ite_throw_eq_ok, throw_bind, bind_eq_ok, pure_eq_ok] at ht
    obtain ⟨g, hg, hkind, -⟩ := ht
    simp only [ReachesInto, not_and, not_exists, Bool.not_eq_true]
    exact ⟨fun hx _ => hx, fun hx => hx ⟨g, hg, hkind⟩⟩
  case deleteTask id =>
    obtain ⟨t, ht, rfl⟩ := hr
    refine ⟨(h.deleteTask ht).1, (h.deleteTask ht).2.trans ?_⟩
    simp only [Store.deleteTask, bind_eq_ok, pure_eq_ok] at ht
    obtain ⟨x, hx, -⟩ := ht
    simp only [ReachesInto, not_and, not_exists, Bool.not_eq_true]
    exact ⟨fun hy _ => hy, fun hy => hy ⟨x, hx⟩⟩
  case deleteNode id expected =>
    obtain ⟨t, ht, rfl⟩ := hr
    refine ⟨(h.deleteNode ht).1, (h.deleteNode ht).2.trans ?_⟩
    obtain ⟨n, hn, hexp⟩ := deleteNode_admitted ht
    simp only [ReachesInto, not_and, not_exists, not_or]
    exact ⟨fun he _ => he, fun he => he ⟨n, hn, hexp⟩⟩
  case upsertWorkflow id w newId now =>
    obtain ⟨r, hr, rfl⟩ := hr
    refine ⟨(upsertWorkflow_kept_iff h hr).1, (upsertWorkflow_kept_iff h hr).2.trans ?_⟩
    obtain ⟨hw, hact, old, hold, f, hf⟩ := upsertWorkflow_admitted hr
    simp only [ReachesInto, not_and, Bool.not_eq_true]
    exact ⟨fun he _ => he, fun he => he ⟨hw, hact, old, hold, f, hf⟩⟩

/-- A request that reaches into a project is served. -/
theorem ReachesInto.isOk {r : DomainRequest} (h : ReachesInto host p o r) :
    ∃ o', o.handle host r = .ok o' := by
  cases r <;> simp only [ReachesInto] at h
  case deleteGoal id =>
    obtain ⟨⟨g, hg, hkind⟩, -⟩ := h
    simp only [handle, map_eq_ok, Store.deleteGoal, ite_throw_eq_ok, throw_bind, bind_eq_ok,
      pure_eq_ok]
    exact ⟨_, _, ⟨g, hg, hkind, rfl⟩, rfl⟩
  case deleteTask id =>
    obtain ⟨⟨x, hx⟩, -⟩ := h
    simp only [handle, map_eq_ok, Store.deleteTask, bind_eq_ok, pure_eq_ok]
    exact ⟨_, _, ⟨x, hx, rfl⟩, rfl⟩
  case deleteNode id expected =>
    obtain ⟨⟨n, hn, hexp⟩, -⟩ := h
    have hrow : o.db.loadRow id = .ok n := by
      simp only [Store.loadActive, bind_eq_ok, pure_eq_ok] at hn
      obtain ⟨m, hm, -, -, rfl⟩ := hn
      exact hm
    simp only [handle, map_eq_ok, Store.deleteNode, Store.deleteRow, bind_eq_ok, pure_eq_ok]
    exact ⟨_, _, ⟨n, hrow, (), hexp, _, ⟨n, hn, rfl⟩, rfl⟩, rfl⟩
  case upsertWorkflow id w newId now =>
    obtain ⟨⟨hw, hact, old, hold, f, hf⟩, -⟩ := h
    obtain ⟨x, hx⟩ := storeWorkflow_isOk o.db ⟨_, _, _, _, _, f.2, _, _⟩
    simp only [handle, map_eq_ok, upsertWorkflow, bind_eq_ok, pure_eq_ok]
    exact ⟨_, _, ⟨(), hw, (), hact, old, hold, f, hf, x, hx, rfl⟩, rfl⟩

/-- A step leaves an archived project archived, and changes its rows exactly when the request
reaches into the project. -/
theorem step_kept_iff (h : o.db.Archived p) {r : DomainRequest} (hun : ¬ Unarchives p r)
    {o' : Orchd} (hr : o.step host r = some o') :
    o'.db.Archived p
      ∧ (o'.db.projectRows p = o.db.projectRows p ↔ ¬ ReachesInto host p o r) := by
  obtain rfl := Option.some.inj hr
  rcases hh : o.handle host r with e | t
  · refine ⟨h, iff_of_true rfl fun hreach => ?_⟩
    obtain ⟨t, ht⟩ := hreach.isOk
    rw [hh] at ht
    cases ht
  · exact handle_kept_iff h hun hh

/-- The rows of an archived project stay as they are throughout exactly the runs no request of which
reaches into the project from outside. -/
theorem archived_rows_kept_iff (h : o.db.Archived p) {rs : List DomainRequest}
    (hun : ∀ r ∈ rs, ¬ Unarchives p r) :
    Runs.Throughout (step host) (fun t : Orchd => t.db.projectRows p = o.db.projectRows p) o rs
      ↔ Runs.Along (step host) (fun t r => ¬ ReachesInto host p t r) o rs := by
  refine Runs.throughout_iff_of_forall (I := fun t : Orchd => t.db.Archived p)
    (P := fun t : Orchd => t.db.projectRows p = o.db.projectRows p)
    (Q := fun r => ¬ Unarchives p r) ?_ ?_ h rfl hun
  · intro s r t hs _ hr ht
    exact (step_kept_iff hs hr ht).1
  · intro s r t hs hrows hr ht
    rw [← hrows]
    exact (step_kept_iff hs hr ht).2

/-- Two projects with an edge between them, the first of them archived. -/
def neighbours : List DomainRequest :=
  [.createProject "first" "" ["w1"] ⟨"p", "pg", "pn", "pr"⟩ 0,
    .createProject "second" "" ["w2"] ⟨"q", "qg", "qn", "qr"⟩ 0,
    .addEdge "pn" "qn" .relates "" "e" 0, .archiveProject "p" 1]

theorem deleteNode_cuts_archived_edge :
    ∃ o, Runs.run (step plainHost) fresh neighbours = some o ∧ o.db.Archived "p"
      ∧ ¬ Unarchives "p" (.deleteNode "qn" none)
      ∧ ∃ o', o.step plainHost (.deleteNode "qn" none) = some o'
      ∧ o'.db.projectRows "p" ≠ o.db.projectRows "p" := by
  refine ⟨_, rfl, by decide +kernel, ?_, _, rfl, by decide +kernel⟩
  rintro ⟨_, h⟩
  cases h

theorem archived_rows_kept_iff_neighbours :
    ∃ o, Runs.run (step plainHost) fresh neighbours = some o
      ∧ (Runs.Throughout (step plainHost)
          (fun t : Orchd => t.db.projectRows "p" = o.db.projectRows "p") o
          [.createGoal "q" (some "qg") .additional "" "" "g" 2]
        ↔ Runs.Along (step plainHost) (fun t r => ¬ ReachesInto plainHost "p" t r) o
          [.createGoal "q" (some "qg") .additional "" "" "g" 2]) := by
  refine ⟨_, rfl, archived_rows_kept_iff (by decide +kernel) ?_⟩
  rintro r hr ⟨_, rfl⟩
  simp at hr

end Orchd

end BuilderPro
