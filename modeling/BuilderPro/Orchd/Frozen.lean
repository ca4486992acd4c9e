import BuilderPro.Orchd.Writes

/-!
# An archived project's rows

Each verb starts with the guard of the project whose row it is given, so no row of an archived
project is written through it.  What the guard does not see is a second project: the one a workflow
is taken from (`upsertWorkflow`), and those a deletion reaches over an edge or a parent link.
-/

namespace BuilderPro

open Results

/-- The rows that belong to a project. -/
structure ProjectRows where
  goals : List Goal
  ideas : List Idea
  insights : List Insight
  tasks : List DomainTask
  rulesets : List RuleSet
  docs : List Doc
  workflows : List WorkflowRow
  nodes : List GraphNode
  edges : List GraphEdge
  deriving DecidableEq

namespace Store

variable (s : Store) (p : String)

def projectRows : ProjectRows where
  goals := s.rowsOf Goal p
  ideas := s.rowsOf Idea p
  insights := s.rowsOf Insight p
  tasks := s.rowsOf DomainTask p
  rulesets := s.rowsOf RuleSet p
  docs := s.rowsOf Doc p
  workflows := s.rowsOf WorkflowRow p
  nodes := s.rowsOf GraphNode p
  edges := s.edgesOf p

def Archived : Prop := ∃ x, s.projects.lookup p = some x ∧ x.status = .archived

instance : Decidable (s.Archived p) :=
  match h : s.projects.lookup p with
  | some x => decidable_of_iff (x.status = .archived) (by simp [Archived, h])
  | none => isFalse (by simp [Archived, h])

/-- What a step leaves of an archived project. -/
structure Kept (t : Store) : Prop where
  rows : t.projectRows p = s.projectRows p
  archived : t.Archived p

end Store

/-- A family whose table may change without the rest of the store. -/
class FramedChild (ρ : Type) [ProjectChild ρ] : Prop where
  projectRows_setTable : ∀ (s : Store) (t : KeyedTable (ProjectChild.id : ρ → String)) (p : String),
    t.rows.filter (fun x => ProjectChild.projectId x = some p) = s.rowsOf ρ p →
      (ProjectChild.setTable s t).projectRows p = s.projectRows p
  projects_setTable : ∀ (s : Store) (t : KeyedTable (ProjectChild.id : ρ → String)),
    (ProjectChild.setTable s t).projects = s.projects
  rowsOf_setTable : ∀ (s : Store) (t : KeyedTable (ProjectChild.id : ρ → String)) (p : String),
    (ProjectChild.setTable s t).rowsOf ρ p
      = t.rows.filter (fun x => ProjectChild.projectId x = some p)
  rowsOf_eq : ∀ (s t : Store) (p : String), t.projectRows p = s.projectRows p →
    t.rowsOf ρ p = s.rowsOf ρ p

section Frames

open Store

instance : FramedChild Goal where
  projectRows_setTable s _ p h := congrArg (fun g => { s.projectRows p with goals := g }) h
  projects_setTable _ _ := rfl
  rowsOf_setTable _ _ _ := rfl
  rowsOf_eq _ _ _ h := congrArg ProjectRows.goals h

instance : FramedChild Idea where
  projectRows_setTable s _ p h := congrArg (fun g => { s.projectRows p with ideas := g }) h
  projects_setTable _ _ := rfl
  rowsOf_setTable _ _ _ := rfl
  rowsOf_eq _ _ _ h := congrArg ProjectRows.ideas h

instance : FramedChild Insight where
  projectRows_setTable s _ p h := congrArg (fun g => { s.projectRows p with insights := g }) h
  projects_setTable _ _ := rfl
  rowsOf_setTable _ _ _ := rfl
  rowsOf_eq _ _ _ h := congrArg ProjectRows.insights h

instance : FramedChild DomainTask where
  projectRows_setTable s _ p h := congrArg (fun g => { s.projectRows p with tasks := g }) h
  projects_setTable _ _ := rfl
  rowsOf_setTable _ _ _ := rfl
  rowsOf_eq _ _ _ h := congrArg ProjectRows.tasks h

instance : FramedChild RuleSet where
  projectRows_setTable s _ p h := congrArg (fun g => { s.projectRows p with rulesets := g }) h
  projects_setTable _ _ := rfl
  rowsOf_setTable _ _ _ := rfl
  rowsOf_eq _ _ _ h := congrArg ProjectRows.rulesets h

instance : FramedChild Doc where
  projectRows_setTable s _ p h := congrArg (fun g => { s.projectRows p with docs := g }) h
  projects_setTable _ _ := rfl
  rowsOf_setTable _ _ _ := rfl
  rowsOf_eq _ _ _ h := congrArg ProjectRows.docs h

instance : FramedChild WorkflowRow where
  projectRows_setTable s _ p h := congrArg (fun g => { s.projectRows p with workflows := g }) h
  projects_setTable _ _ := rfl
  rowsOf_setTable _ _ _ := rfl
  rowsOf_eq _ _ _ h := congrArg ProjectRows.workflows h

instance : FramedChild GraphNode where
  projectRows_setTable s _ p h := congrArg (fun g : List GraphNode =>
    { s.projectRows p with
      nodes := g
      edges := s.edges.rows.filter fun e =>
        (g.any fun n => n.id == e.sourceNodeId) || (g.any fun n => n.id == e.targetNodeId) }) h
  projects_setTable _ _ := rfl
  rowsOf_setTable _ _ _ := rfl
  rowsOf_eq _ _ _ h := congrArg ProjectRows.nodes h

end Frames

namespace Store

variable {s t : Store} {p q : String}

theorem Archived.kept_refl (h : s.Archived p) : s.Kept p s := ⟨rfl, h⟩

theorem Kept.trans {u : Store} (h : s.Kept p t) (h' : t.Kept p u) : s.Kept p u :=
  ⟨h'.rows.trans h.rows, h'.archived⟩

theorem Archived.of_projects (h : s.Archived p) (he : t.projects = s.projects) : t.Archived p := by
  rw [Archived, he]
  exact h

/-- The guard lets no archived project through. -/
theorem Archived.ne_of_active (h : s.Archived p) {u : Unit} (hq : s.ensureProjectActive q = .ok u) :
    q ≠ p := by
  rintro rfl
  obtain ⟨x, hx, harch⟩ := h
  simp [ensureProjectActive, hx, harch] at hq

theorem Archived.ne_of_optional (h : s.Archived p) {q : Option String} {u : Unit}
    (hq : s.ensureOptionalProjectActive q = .ok u) : q ≠ some p := by
  rintro rfl
  exact h.ne_of_active hq rfl

section Rows

variable {ρ : Type} [ProjectChild ρ] [FramedChild ρ] {x y : ρ} {id : String}

omit [FramedChild ρ] in
theorem Archived.loadActive (h : s.Archived p) (hx : s.loadActive id = .ok x) :
    (ProjectChild.table s).lookup id = some x ∧ ProjectChild.projectId x ≠ some p := by
  simp only [Store.loadActive, bind_eq_ok, pure_eq_ok, loadRow_eq_ok] at hx
  obtain ⟨y, hy, u, hu, rfl⟩ := hx
  exact ⟨hy, h.ne_of_optional hu⟩

theorem Archived.setTable (h : s.Archived p) {u : KeyedTable (ProjectChild.id : ρ → String)}
    (hu : u.rows.filter (fun x => ProjectChild.projectId x = some p) = s.rowsOf ρ p) :
    s.Kept p (ProjectChild.setTable s u) :=
  ⟨FramedChild.projectRows_setTable s u p hu, h.of_projects (FramedChild.projects_setTable s u)⟩

theorem Archived.replaceRow (h : s.Archived p)
    (hy : (ProjectChild.table s).lookup (ProjectChild.id x) = some y)
    (hpy : ProjectChild.projectId y ≠ some p) (hpx : ProjectChild.projectId x ≠ some p) :
    s.Kept p (s.replaceRow x) :=
  h.setTable (KeyedTable.filter_replace hy (by simpa using hpx) (by simpa using hpy))

theorem Archived.keepRows (h : s.Archived p) {r : ρ → Bool}
    (hr : ∀ x ∈ s.rowsOf ρ p, r x = true) : s.Kept p (s.keepRows r) := by
  refine h.setTable ((KeyedTable.filter_keep_eq_iff _ _).2 fun x hx hp => hr x ?_)
  exact List.mem_filter.2 ⟨hx, hp⟩

theorem Archived.insertRow (h : s.Archived p) {taken : OrchdPersistError}
    (hx : s.insertRow x taken = .ok t) (hp : ProjectChild.projectId x ≠ some p) : s.Kept p t := by
  unfold Store.insertRow at hx
  split at hx
  · rename_i u hu
    cases hx
    refine h.setTable ?_
    rw [KeyedTable.filter_insert hu]
    simp [hp, rowsOf]
  · cases hx

theorem Archived.updateRow (h : s.Archived p) {f : ρ → ρ} {r : Store × ρ}
    (hr : s.updateRow id f = .ok r)
    (hf : ∀ x, ProjectChild.id (f x) = ProjectChild.id x
      ∧ ProjectChild.projectId (f x) = ProjectChild.projectId x) :
    s.Kept p r.1 ∧ ∃ x, (ProjectChild.table s).lookup id = some x ∧ r.2 = f x
      ∧ ProjectChild.projectId x ≠ some p := by
  simp only [Store.updateRow, bind_eq_ok, pure_eq_ok] at hr
  obtain ⟨x, hx, rfl⟩ := hr
  obtain ⟨hx, hp⟩ := h.loadActive hx
  refine ⟨h.replaceRow ?_ hp ?_, x, hx, rfl, hp⟩
  · rw [(hf x).1, KeyedTable.key_eq hx]
    exact hx
  · rw [(hf x).2]
    exact hp

theorem Archived.deleteRow (h : s.Archived p) (hr : s.deleteRow ρ id = .ok t) : s.Kept p t := by
  simp only [Store.deleteRow, bind_eq_ok, pure_eq_ok] at hr
  obtain ⟨x, hx, rfl⟩ := hr
  obtain ⟨hx, hp⟩ := h.loadActive hx
  refine h.keepRows fun y hy => ?_
  obtain ⟨hy, hyp⟩ := List.mem_filter.1 hy
  simp only [ne_eq, decide_not, Bool.not_eq_eq_eq_not, Bool.not_true, decide_eq_false_iff_not]
  rintro rfl
  obtain rfl : y = x := Option.some.inj ((KeyedTable.mem_rows.1 hy).symm.trans hx)
  exact hp (by simpa using hyp)

end Rows

/-! ### Project and goal verbs -/

theorem projects_insertNode {n : GraphNode} {taken : OrchdPersistError}
    (h : s.insertNode n taken = .ok t) : s.insertRow n taken = .ok t := by
  simp only [insertNode, ite_error_eq_ok] at h
  exact h.2.2

theorem Archived.insertNode (h : s.Archived p) {n : GraphNode} {taken : OrchdPersistError}
    (hn : s.insertNode n taken = .ok t) (hp : n.projectId ≠ p) : s.Kept p t :=
  h.insertRow (projects_insertNode hn) (by simpa [ProjectChild.projectId] using hp)

theorem Archived.insertGoal (h : s.Archived p) {g : Goal} {taken : OrchdPersistError}
    (hg : s.insertGoal g taken = .ok t) (hp : g.projectId ≠ p) : s.Kept p t := by
  simp only [Store.insertGoal, ite_error_eq_ok] at hg
  exact h.insertRow hg.2 (by simpa [ProjectChild.projectId] using hp)

theorem Archived.insertWorkspaces {ws : List String} {ord : ℤ} (h : s.Archived p)
    (hw : Store.insertWorkspaces q ord ws s = .ok t) : s.Kept p t := by
  induction ws generalizing s ord with
  | nil =>
    cases hw
    exact h.kept_refl
  | cons w ws ih =>
    simp only [Store.insertWorkspaces] at hw
    split at hw
    · cases hw
    · rename_i u hu
      have hk : s.Kept p { s with workspaces := u } := ⟨rfl, h.of_projects rfl⟩
      exact hk.trans (ih hk.archived hw)

theorem Archived.insertProject (h : s.Archived p) {x : ProjectRow} {taken : OrchdPersistError}
    (hx : s.insertProject x taken = .ok t) : s.Kept p t ∧ x.id ≠ p := by
  unfold Store.insertProject at hx
  obtain ⟨y, hy, harch⟩ := h
  split at hx
  · rename_i u hu
    cases hx
    have hne : x.id ≠ p := by
      rintro rfl
      simp [(KeyedTable.insert_eq_some.1 hu).1] at hy
    refine ⟨⟨rfl, y, ?_, harch⟩, hne⟩
    rw [KeyedTable.lookup_insert hu, if_neg hne.symm]
    exact hy
  · cases hx

theorem Archived.setProject (h : s.Archived p) {f : ProjectRow → ProjectRow}
    (hf : ∀ x, (f x).id = x.id) (hq : q ≠ p) : s.Kept p (s.setProject q f) := by
  obtain ⟨x, hx, harch⟩ := h
  refine ⟨rfl, x, ?_, harch⟩
  rw [Store.setProject, KeyedTable.lookup_modify hf, if_neg hq.symm]
  exact hx

theorem Archived.createProject (h : s.Archived p) {app : FilePath} {name description : String}
    {ws : List String} {ids : ProjectIds} {now : ℤ} {r : Store × Project}
    (hr : s.createProject app name description ws ids now = .ok r) : s.Kept p r.1 := by
  simp only [Store.createProject, ite_throw_eq_ok, throw_bind, bind_eq_ok, pure_eq_ok] at hr
  obtain ⟨-, s₁, h₁, s₂, h₂, s₃, h₃, s₄, h₄, s₅, h₅, x, -, rfl⟩ := hr
  obtain ⟨k₁, hne⟩ := h.insertProject h₁
  have k₂ := k₁.archived.insertWorkspaces h₂
  have k₃ := k₂.archived.insertGoal h₃ hne
  have k₄ := k₃.archived.insertNode h₄ hne
  simp only [Store.insertProjectRuleset, ite_error_eq_ok] at h₅
  have k₅ := k₄.archived.insertRow h₅.2 (by simpa [ProjectChild.projectId] using hne)
  exact (((k₁.trans k₂).trans k₃).trans k₄).trans k₅

theorem Archived.updateProject (h : s.Archived p) {name description : Option String} {now : ℤ}
    {r : Store × Project} (hr : s.updateProject q name description now = .ok r) : s.Kept p r.1 := by
  simp only [Store.updateProject, bind_eq_ok, pure_eq_ok] at hr
  obtain ⟨u, hu, x, -, rfl⟩ := hr
  refine h.setProject (fun x => ?_) (h.ne_of_active hu)
  split_ifs <;> rfl

theorem Archived.archiveProject (h : s.Archived p) {now : ℤ} {r : Store × Project}
    (hr : s.archiveProject q now = .ok r) : s.Kept p r.1 := by
  simp only [Store.archiveProject, bind_eq_ok, pure_eq_ok] at hr
  obtain ⟨u, hu, x, -, rfl⟩ := hr
  exact h.setProject (fun _ => rfl) (h.ne_of_active hu)

theorem Archived.unarchiveProject (h : s.Archived p) {now : ℤ} {r : Store × Project}
    (hr : s.unarchiveProject q now = .ok r) (hq : q ≠ p) : s.Kept p r.1 := by
  unfold Store.unarchiveProject at hr
  split at hr
  · cases hr
  · simp only [ite_throw_eq_ok, throw_bind, bind_eq_ok, pure_eq_ok] at hr
    obtain ⟨-, x, -, rfl⟩ := hr
    exact h.setProject (fun _ => rfl) hq

theorem Archived.addProjectWorkspace (h : s.Archived p) {w : String} {r : Store × Project}
    (hr : s.addProjectWorkspace q w = .ok r) : s.Kept p r.1 := by
  simp only [Store.addProjectWorkspace, bind_eq_ok, pure_eq_ok] at hr
  obtain ⟨-, -, t, ht, x, -, rfl⟩ := hr
  exact h.insertWorkspaces ht

theorem Archived.removeProjectWorkspace (h : s.Archived p) {w : String} {r : Store × Project}
    (hr : s.removeProjectWorkspace q w = .ok r) : s.Kept p r.1 := by
  simp only [Store.removeProjectWorkspace, ite_throw_eq_ok, throw_bind, bind_eq_ok, pure_eq_ok]
    at hr
  obtain ⟨-, -, -, x, -, rfl⟩ := hr
  exact ⟨rfl, h.of_projects rfl⟩

theorem Archived.createGoal (h : s.Archived p) {parent : Option String} {kind : GoalKind}
    {title body id : String} {now : ℤ} {r : Store × Goal}
    (hr : s.createGoal q parent kind title body id now = .ok r) : s.Kept p r.1 := by
  simp only [Store.createGoal, ite_throw_eq_ok, throw_bind, bind_eq_ok, pure_eq_ok] at hr
  obtain ⟨u, hu, -, -, -, -, -, t, ht, rfl⟩ := hr
  exact h.insertGoal ht (h.ne_of_active hu)

theorem Archived.updateGoal (h : s.Archived p) {id : String} {title body : Option String}
    {status : Option GoalStatus} {refs : Option (List String)} {now : ℤ} {r : Store × Goal}
    (hr : s.updateGoal id title body status refs now = .ok r) : s.Kept p r.1 := by
  refine (h.updateRow hr fun g => ?_).1
  split_ifs <;> exact ⟨rfl, rfl⟩

theorem Archived.moveGoal (h : s.Archived p) {id : String} {parent : Option String} {ord now : ℤ}
    {r : Store × Goal} (hr : s.moveGoal id parent ord now = .ok r) : s.Kept p r.1 := by
  simp only [Store.moveGoal, ite_throw_eq_ok, throw_bind, bind_eq_ok, pure_eq_ok] at hr
  obtain ⟨-, g, hg, -, newParent, -, -, -, below, -, -, rfl⟩ := hr
  obtain ⟨hg, hp⟩ := h.loadActive hg
  refine h.replaceRow (y := g) ?_ hp hp
  rw [← KeyedTable.key_eq hg] at hg
  exact hg

/-- `delete_goal` spares an archived project none of whose goals is below. -/
theorem Archived.deleteGoal (h : s.Archived p) {id : String} (hr : s.deleteGoal id = .ok t) :
    t.Archived p ∧ (t.projectRows p = s.projectRows p
      ↔ ∀ g ∈ s.rowsOf Goal p, s.underGoal id g.id = false) := by
  simp only [Store.deleteGoal, ite_throw_eq_ok, throw_bind, bind_eq_ok, pure_eq_ok] at hr
  obtain ⟨g, -, -, rfl⟩ := hr
  refine ⟨h.of_projects rfl, fun he => ?_, fun hg => (h.keepRows fun x hx => ?_).rows⟩
  · have hrows := FramedChild.rowsOf_eq (ρ := Goal) _ _ _ he
    intro g hg
    have := (KeyedTable.filter_keep_eq_iff _ _).1 hrows g (List.mem_filter.1 hg).1
      (List.mem_filter.1 hg).2
    simpa using this
  · simp [hg x hx]

/-! ### Item verbs -/

theorem Archived.createIdea (h : s.Archived p) {q : Option String} {title body id : String}
    {now : ℤ} {r : Store × Idea} (hr : s.createIdea q title body id now = .ok r) :
    s.Kept p r.1 := by
  simp only [Store.createIdea, bind_eq_ok, pure_eq_ok] at hr
  obtain ⟨u, hu, t, ht, rfl⟩ := hr
  exact h.insertRow ht (h.ne_of_optional hu)

theorem Archived.setIdeaProject (h : s.Archived p) {id : String} {q : Option String} {now : ℤ}
    {r : Store × Idea} (hr : s.setIdeaProject id q now = .ok r) : s.Kept p r.1 := by
  simp only [Store.setIdeaProject, bind_eq_ok, pure_eq_ok] at hr
  obtain ⟨i, hi, u, hu, rfl⟩ := hr
  obtain ⟨hi, hp⟩ := h.loadActive hi
  refine h.replaceRow (y := i) ?_ hp (h.ne_of_optional hu)
  rw [← KeyedTable.key_eq hi] at hi
  exact hi

theorem Archived.startResearchRun (h : s.Archived p) {id : String} {serverExists : Bool} {now : ℤ}
    {r : Store × Bool} (hr : s.startResearchRun id serverExists now = .ok r) : s.Kept p r.1 := by
  simp only [Store.startResearchRun, ite_throw_eq_ok, throw_bind, bind_eq_ok] at hr
  obtain ⟨i, hi, -, hr⟩ := hr
  obtain ⟨hi, hp⟩ := h.loadActive hi
  split_ifs at hr
  · cases hr
    refine h.replaceRow (y := i) ?_ hp hp
    rw [← KeyedTable.key_eq hi] at hi
    exact hi
  · cases hr
    exact h.kept_refl

theorem Archived.createInsight (h : s.Archived p) {q : Option String}
    {source title body id : String} {now : ℤ} {r : Store × Insight}
    (hr : s.createInsight q source title body id now = .ok r) : s.Kept p r.1 := by
  simp only [Store.createInsight, bind_eq_ok, pure_eq_ok] at hr
  obtain ⟨u, hu, t, ht, rfl⟩ := hr
  exact h.insertRow ht (h.ne_of_optional hu)

theorem Archived.addEntityRefNode (h : s.Archived p) {entityType : GraphEntityType}
    {entityId label id : String} {posX posY : F64} {now : ℤ} {r : Store × GraphNode}
    (hr : s.addEntityRefNode q entityType entityId label posX posY id now = .ok r) :
    s.Kept p r.1 := by
  simp only [Store.addEntityRefNode, bind_eq_ok, pure_eq_ok] at hr
  obtain ⟨-, -, u, hu, t, ht, rfl⟩ := hr
  exact h.insertNode ht (h.ne_of_active hu)

theorem Archived.setInsightStatus (h : s.Archived p) {id nodeId : String} {status : InsightStatus}
    {reasoning : Option String} {now : ℤ} {r : Store × Insight}
    (hr : s.setInsightStatus id status reasoning nodeId now = .ok r) : s.Kept p r.1 := by
  simp only [Store.setInsightStatus, bind_eq_ok] at hr
  obtain ⟨⟨t, i⟩, ht, hr⟩ := hr
  have hk : s.Kept p t := (h.updateRow ht fun _ => ⟨rfl, rfl⟩).1
  dsimp only at hr
  split at hr
  · split at hr
    · rename_i u n hu
      cases hr
      exact hk.trans (hk.archived.addEntityRefNode hu)
    · cases hr
      exact hk
  · cases hr
    exact hk

theorem Archived.createTask (h : s.Archived p) {parent : Option String} {title body id : String}
    {status : Option TaskStatus} {source : TaskSource} {sourceId : Option String}
    {tags : List String} {priority : Option TaskPriority} {now : ℤ} {r : Store × DomainTask}
    (hr : s.createTask q parent title body status source sourceId tags priority id now = .ok r) :
    s.Kept p r.1 := by
  simp only [Store.createTask, bind_eq_ok, pure_eq_ok] at hr
  obtain ⟨u, hu, -, -, t, ht, rfl⟩ := hr
  exact h.insertRow ht (by simpa [ProjectChild.projectId] using h.ne_of_active hu)

/-- `delete_task` spares an archived project none of whose tasks is below. -/
theorem Archived.deleteTask (h : s.Archived p) {id : String} (hr : s.deleteTask id = .ok t) :
    t.Archived p ∧ (t.projectRows p = s.projectRows p
      ↔ ∀ x ∈ s.rowsOf DomainTask p, s.underTask id x.id = false) := by
  simp only [Store.deleteTask, bind_eq_ok, pure_eq_ok] at hr
  obtain ⟨x, -, rfl⟩ := hr
  refine ⟨h.of_projects rfl, fun he => ?_, fun hx => (h.keepRows fun y hy => ?_).rows⟩
  · have hrows := FramedChild.rowsOf_eq (ρ := DomainTask) _ _ _ he
    intro y hy
    have := (KeyedTable.filter_keep_eq_iff _ _).1 hrows y (List.mem_filter.1 hy).1
      (List.mem_filter.1 hy).2
    simpa using this
  · simp [hx y hy]

/-! ### Graph verbs -/

theorem Archived.addNode (h : s.Archived p) {kind : GraphNodeKind} {label body id : String}
    {posX posY : F64} {now : ℤ} {r : Store × GraphNode}
    (hr : s.addNode q kind label body posX posY id now = .ok r) : s.Kept p r.1 := by
  simp only [Store.addNode, ite_throw_eq_ok, throw_bind, bind_eq_ok, pure_eq_ok] at hr
  obtain ⟨-, -, -, u, hu, t, ht, rfl⟩ := hr
  exact h.insertNode ht (h.ne_of_active hu)

theorem Archived.updateNode (h : s.Archived p) {id : String} {label body expected : Option String}
    {now : ℤ} {r : Store × GraphNode} (hr : s.updateNode id label body expected now = .ok r) :
    s.Kept p r.1 := by
  simp only [Store.updateNode, bind_eq_ok] at hr
  obtain ⟨-, -, -, -, hr⟩ := hr
  refine (h.updateRow hr fun n => ?_).1
  split_ifs <;> exact ⟨rfl, rfl⟩

theorem Archived.moveNode (h : s.Archived p) {id : String} {posX posY : F64}
    {expected : Option String} {now : ℤ} {r : Store × GraphNode}
    (hr : s.moveNode id posX posY expected now = .ok r) : s.Kept p r.1 := by
  simp only [Store.moveNode, bind_eq_ok] at hr
  obtain ⟨-, -, -, -, -, -, hr⟩ := hr
  exact (h.updateRow hr fun _ => ⟨rfl, rfl⟩).1

/-- The edges of a project, after one of its tables has changed the edges alone. -/
theorem projectRows_edges (u : KeyedTable GraphEdge.id) :
    ({ s with edges := u } : Store).projectRows p = s.projectRows p
      ↔ u.rows.filter (s.touches p) = s.edgesOf p :=
  ⟨congrArg ProjectRows.edges, fun h => congrArg (fun e => { s.projectRows p with edges := e }) h⟩

/-- `delete_node` spares an archived project none of whose edges ends in the node. -/
theorem Archived.deleteNode (h : s.Archived p) {id : String} {expected : Option String}
    (hr : s.deleteNode id expected = .ok t) :
    t.Archived p ∧ (t.projectRows p = s.projectRows p
      ↔ ∀ e ∈ s.edgesOf p, e.sourceNodeId ≠ id ∧ e.targetNodeId ≠ id) := by
  simp only [Store.deleteNode, bind_eq_ok, pure_eq_ok] at hr
  obtain ⟨-, -, -, -, u, hu, rfl⟩ := hr
  have hk : s.Kept p u := h.deleteRow hu
  have hedges : u.edges = s.edges := by
    simp only [Store.deleteRow, bind_eq_ok, pure_eq_ok] at hu
    obtain ⟨-, -, rfl⟩ := hu
    rfl
  refine ⟨hk.archived.of_projects rfl, ?_⟩
  rw [← hk.rows, projectRows_edges, Store.edgesOf, KeyedTable.filter_keep_eq_iff]
  have hmem : ∀ e, e ∈ s.edgesOf p ↔ e ∈ u.edges.rows ∧ u.touches p e = true := by
    intro e
    have : s.edgesOf p = u.edgesOf p := (congrArg ProjectRows.edges hk.rows).symm
    rw [this, Store.edgesOf, List.mem_filter]
  simp only [hmem, and_imp, Bool.and_eq_true, bne_iff_ne, ne_eq]

theorem isNodeOf_eq_true {id : String} :
    s.isNodeOf p id = true ↔ ∃ n, s.nodes.lookup id = some n ∧ n.projectId = p := by
  simp only [isNodeOf, rowsOf, List.any_eq_true, List.mem_filter, decide_eq_true_eq,
    KeyedTable.lookup_eq_some, beq_iff_eq]
  constructor
  · rintro ⟨n, ⟨hn, hp⟩, rfl⟩
    exact ⟨n, ⟨hn, rfl⟩, Option.some.inj hp⟩
  · rintro ⟨n, ⟨hn, hid⟩, rfl⟩
    exact ⟨n, ⟨hn, rfl⟩, hid⟩

theorem isNodeOf_of_ne {id : String} (h : s.nodeProjectId id = .ok q) (hq : q ≠ p) :
    s.isNodeOf p id = false := by
  rw [Bool.eq_false_iff, ne_eq, isNodeOf_eq_true]
  rintro ⟨n, hn, rfl⟩
  rw [nodeProjectId, hn] at h
  exact hq (Except.ok.inj h).symm

/-- The guard of both ends keeps the edges of an archived project from being written. -/
theorem Archived.not_touches (h : s.Archived p) {e : GraphEdge} {id : String}
    (he : s.loadActiveEdge id = .ok e) : s.edges.lookup id = some e ∧ s.touches p e = false := by
  unfold Store.loadActiveEdge at he
  split at he
  · cases he
  · rename_i e' hlookup
    simp only [bind_eq_ok] at he
    obtain ⟨sp, hs, tp, ht, u, hu, he⟩ := he
    have hsp := h.ne_of_active hu
    have htouch : tp ≠ p → s.touches p e' = false := by
      intro htp
      simp [touches, isNodeOf_of_ne hs hsp, isNodeOf_of_ne ht htp]
    split_ifs at he with hne
    · simp only [bind_eq_ok, pure_eq_ok] at he
      obtain ⟨v, hv, rfl⟩ := he
      exact ⟨hlookup, htouch (h.ne_of_active hv)⟩
    · cases he
      exact ⟨hlookup, htouch (by rwa [not_not.1 hne])⟩

theorem Archived.insertEdge (h : s.Archived p) {e : GraphEdge} {taken : OrchdPersistError}
    (he : s.insertEdge e taken = .ok t) (hp : s.touches p e = false) : s.Kept p t := by
  simp only [Store.insertEdge, ite_error_eq_ok] at he
  obtain ⟨-, -, he⟩ := he
  split at he
  · rename_i u hu
    cases he
    refine ⟨(projectRows_edges u).2 ?_, h.of_projects rfl⟩
    simp [KeyedTable.filter_insert hu, hp, edgesOf]
  · cases he

theorem Archived.addEdge (h : s.Archived p) {source target : String} {kind : GraphEdgeKind}
    {label id : String} {now : ℤ} {r : Store × GraphEdge}
    (hr : s.addEdge source target kind label id now = .ok r) : s.Kept p r.1 := by
  simp only [Store.addEdge, ite_throw_eq_ok, throw_bind, bind_eq_ok, pure_eq_ok] at hr
  obtain ⟨-, sp, hsp, tp, htp, u, hu, v, hv, t, ht, rfl⟩ := hr
  refine h.insertEdge ht ?_
  simp [touches, isNodeOf_of_ne hsp (h.ne_of_active hu), isNodeOf_of_ne htp (h.ne_of_active hv)]

theorem Archived.updateEdge (h : s.Archived p) {id : String} {kind : GraphEdgeKind}
    {r : Store × GraphEdge} (hr : s.updateEdge id kind = .ok r) : s.Kept p r.1 := by
  simp only [Store.updateEdge, ite_throw_eq_ok, throw_bind, bind_eq_ok, pure_eq_ok] at hr
  obtain ⟨e, he, -, rfl⟩ := hr
  obtain ⟨he, hp⟩ := h.not_touches he
  refine ⟨(projectRows_edges _).2 (KeyedTable.filter_replace (y := e) ?_ hp hp), h.of_projects rfl⟩
  rw [← KeyedTable.key_eq he] at he
  exact he

theorem Archived.deleteEdge (h : s.Archived p) {id : String} (hr : s.deleteEdge id = .ok t) :
    s.Kept p t := by
  simp only [Store.deleteEdge, bind_eq_ok, pure_eq_ok] at hr
  obtain ⟨e, he, rfl⟩ := hr
  obtain ⟨he, hp⟩ := h.not_touches he
  refine ⟨(projectRows_edges _).2 ((KeyedTable.filter_keep_eq_iff _ _).2 fun x hx hpx => ?_),
    h.of_projects rfl⟩
  simp only [ne_eq, decide_not, Bool.not_eq_eq_eq_not, Bool.not_true, decide_eq_false_iff_not]
  rintro rfl
  obtain rfl : x = e := Option.some.inj ((KeyedTable.mem_rows.1 hx).symm.trans he)
  rw [hp] at hpx
  cases hpx

end Store

end BuilderPro
