import Mathlib.Logic.Relation
import BuilderPro.Lib.Results
import BuilderPro.Orchd.Requests

/-!
# What a request writes

Each verb writes one of these to the store, or one after another (`handle_writes`).  Every
constructor has the guards the verb has passed; what all requests keep is proved of the writes.
-/

namespace BuilderPro

open Results

namespace Store

variable (s : Store)

/-- Whether a project of the id exists. -/
def HasProject (p : String) : Prop := (s.projects.lookup p).isSome

instance (p : String) : Decidable (s.HasProject p) := inferInstanceAs (Decidable (_ = true))

/-- A new project: its row with its links, its strategic goal with a node, and its ruleset. -/
structure NewProject (t : Store) (x : ProjectRow) (g : Goal) (n : GraphNode) (r : RuleSet) :
    Prop where
  project : s.projects.insert x = some t.projects
  links : ∀ w ∈ t.workspaces.rows, w ∈ s.workspaces.rows ∨ w.projectId = x.id
  goal : s.goals.insert g = some t.goals
  goalOf : g.projectId = x.id ∧ g.parentId = none ∧ g.kind = .strategic
  only : s.hasStrategicGoal x.id = false
  node : s.nodes.insert n = some t.nodes
  nodeOf : n.projectId = x.id ∧ n.kind = .entityRef ∧ n.entityType = some .goal
    ∧ n.entityId = some g.id ∧ n.posX.isFinite = true ∧ n.posY.isFinite = true
  onlyNode : s.hasEntityRef n.entityType n.entityId = false
  ruleset : s.rulesets.insert r = some t.rulesets
  rulesetOf : r.scope = .project ∧ r.projectId = some x.id
  onlyRuleset : ∀ q ∈ s.rulesets.rows, q.projectId ≠ some x.id
  rest : t = { s with
    projects := t.projects, workspaces := t.workspaces, goals := t.goals, nodes := t.nodes,
    rulesets := t.rulesets }

/-- What a request may write, by table. -/
inductive Write : Store → Prop
  | setProject (id : String) (f : ProjectRow → ProjectRow) (hf : ∀ x, (f x).id = x.id) :
    Write (s.setProject id f)
  | newProject (t : Store) (x : ProjectRow) (g : Goal) (n : GraphNode) (r : RuleSet)
    (h : s.NewProject t x g n r) : Write t
  | workspaces (u : KeyedTable ProjectWorkspace.workspaceId)
    (hu : ∀ w ∈ u.rows, w ∈ s.workspaces.rows ∨ s.HasProject w.projectId) :
    Write { s with workspaces := u }
  | insertGoal (g : Goal) (u : KeyedTable Goal.id) (hu : s.goals.insert g = some u)
    (hp : s.HasProject g.projectId) (hroot : g.parentId = none ↔ g.kind = .strategic)
    (hparent : ∀ q, g.parentId = some q →
      ∃ h, s.goals.lookup q = some h ∧ h.projectId = g.projectId)
    (hone : g.kind = .strategic → s.hasStrategicGoal g.projectId = false) :
    Write { s with goals := u }
  | replaceGoal (g g' : Goal) (hg : s.goals.lookup g'.id = some g)
    (hp : g'.projectId = g.projectId) (hparent : g'.parentId = g.parentId)
    (hkind : g'.kind = g.kind) : Write { s with goals := s.goals.replace g' }
  | moveGoal (g g' : Goal) (q : String) (hg : s.goals.lookup g'.id = some g)
    (hp : g'.projectId = g.projectId) (hparent : g'.parentId = some q) (hkind : g'.kind = g.kind)
    (hadd : g.kind ≠ .strategic)
    (hq : ∃ h, s.goals.lookup q = some h ∧ h.projectId = g.projectId)
    (hbelow : s.ancestorChainContains q g'.id = .ok false) :
    Write { s with goals := s.goals.replace g' }
  | deleteGoals (g : Goal) (id : String) (hg : s.goals.lookup id = some g)
    (hadd : g.kind ≠ .strategic) :
    Write { s with goals := s.goals.keep fun x => !s.underGoal id x.id }
  | insertIdea (i : Idea) (u : KeyedTable Idea.id) (hu : s.ideas.insert i = some u)
    (hp : ∀ p, i.projectId = some p → s.HasProject p) : Write { s with ideas := u }
  | replaceIdea (i i' : Idea) (hi : s.ideas.lookup i'.id = some i)
    (hp : i'.projectId = i.projectId ∨ ∀ p, i'.projectId = some p → s.HasProject p) :
    Write { s with ideas := s.ideas.replace i' }
  | keepIdeas (r : Idea → Bool) : Write { s with ideas := s.ideas.keep r }
  | insertInsight (i : Insight) (u : KeyedTable Insight.id) (hu : s.insights.insert i = some u)
    (hp : ∀ p, i.projectId = some p → s.HasProject p) (hnew : i.status = .new) :
    Write { s with insights := u }
  | replaceInsight (i i' : Insight) (hi : s.insights.lookup i'.id = some i)
    (hp : i'.projectId = i.projectId) : Write { s with insights := s.insights.replace i' }
  | keepInsights (r : Insight → Bool) : Write { s with insights := s.insights.keep r }
  | insertTask (x : DomainTask) (u : KeyedTable DomainTask.id) (hu : s.tasks.insert x = some u)
    (hp : s.HasProject x.projectId)
    (hparent : ∀ q, x.parentId = some q →
      ∃ y, s.tasks.lookup q = some y ∧ y.projectId = x.projectId)
    (hrank : x.rank = ((s.maxRank x.projectId).getD (.finite 0)).add 1024) :
    Write { s with tasks := u }
  | replaceTask (x x' : DomainTask) (hx : s.tasks.lookup x'.id = some x)
    (hp : x'.projectId = x.projectId) (hparent : x'.parentId = x.parentId)
    (hrank : x'.rank = x.rank ∨ x'.rank.isFinite = true) :
    Write { s with tasks := s.tasks.replace x' }
  | deleteTasks (id : String) : Write { s with tasks := s.tasks.keep fun x => !s.underTask id x.id }
  | replaceRuleset (r r' : RuleSet) (hr : s.rulesets.lookup r'.id = some r)
    (hscope : r'.scope = r.scope) (hp : r'.projectId = r.projectId) :
    Write { s with rulesets := s.rulesets.replace r' }
  | insertGlobalRuleset (r : RuleSet) (u : KeyedTable RuleSet.id)
    (hu : s.rulesets.insert r = some u) (hr : r.scope = .global ∧ r.projectId = none)
    (hone : ∀ q ∈ s.rulesets.rows, q.scope ≠ .global) : Write { s with rulesets := u }
  | insertDoc (d : Doc) (u : KeyedTable Doc.id) (hu : s.docs.insert d = some u)
    (hp : s.HasProject d.projectId) (hname : validateDocName d.name = .ok ())
    (hone : ∀ e ∈ s.docs.rows, e.projectId = d.projectId → e.name ≠ d.name) :
    Write { s with docs := u }
  | replaceDoc (d d' : Doc) (hd : s.docs.lookup d'.id = some d) (hp : d'.projectId = d.projectId)
    (hname : d'.name = d.name) : Write { s with docs := s.docs.replace d' }
  | keepDocs (r : Doc → Bool) : Write { s with docs := s.docs.keep r }
  | workflows (u : KeyedTable WorkflowRow.id)
    (hu : ∀ w ∈ u.rows, w ∈ s.workflows.rows ∨ ∀ p, w.projectId = some p → s.HasProject p) :
    Write { s with workflows := u }
  | insertNode (n : GraphNode) (u : KeyedTable GraphNode.id) (hu : s.nodes.insert n = some u)
    (hp : s.HasProject n.projectId) (hpos : n.posX.isFinite = true ∧ n.posY.isFinite = true)
    (hent : n.kind ≠ .entityRef ∧ n.entityType = none ∧ n.entityId = none
      ∨ n.kind = .entityRef ∧ n.entityType = some .insight ∧ ∃ i, n.entityId = some i.id
        ∧ s.insights.lookup i.id = some i ∧ i.projectId = some n.projectId)
    (hone : n.kind = .entityRef → s.hasEntityRef n.entityType n.entityId = false) :
    Write { s with nodes := u }
  | replaceNode (n n' : GraphNode) (hn : s.nodes.lookup n'.id = some n)
    (hp : n'.projectId = n.projectId)
    (hent : n'.kind = n.kind ∧ n'.entityType = n.entityType ∧ n'.entityId = n.entityId)
    (hpos : n'.posX = n.posX ∧ n'.posY = n.posY
      ∨ n'.posX.isFinite = true ∧ n'.posY.isFinite = true) :
    Write { s with nodes := s.nodes.replace n' }
  | deleteNode (id : String) : Write { s with
      nodes := s.nodes.erase id
      edges := s.edges.keep fun e => e.sourceNodeId != id && e.targetNodeId != id }
  | insertEdge (e : GraphEdge) (u : KeyedTable GraphEdge.id) (hu : s.edges.insert e = some u)
    (hends : (s.nodes.lookup e.sourceNodeId).isSome ∧ (s.nodes.lookup e.targetNodeId).isSome)
    (hne : e.sourceNodeId ≠ e.targetNodeId)
    (hone : s.hasEdge e.id e.sourceNodeId e.targetNodeId e.kind = false) :
    Write { s with edges := u }
  | replaceEdge (e e' : GraphEdge) (he : s.edges.lookup e'.id = some e)
    (hends : e'.sourceNodeId = e.sourceNodeId ∧ e'.targetNodeId = e.targetNodeId)
    (hone : s.hasEdge e'.id e'.sourceNodeId e'.targetNodeId e'.kind = false) :
    Write { s with edges := s.edges.replace e' }
  | keepEdges (r : GraphEdge → Bool) : Write { s with edges := s.edges.keep r }

/-- Writes one after another. -/
abbrev Writes : Store → Store → Prop := Relation.ReflTransGen Write

/-! ### Guards -/

section Guards

variable {s} {t : Store} {p id : String}

theorem hasProject_of_active {u : Unit} (h : s.ensureProjectActive p = .ok u) : s.HasProject p := by
  unfold ensureProjectActive at h
  split at h
  · cases h
  · rename_i x hx
    simp [HasProject, hx]

theorem hasProject_of_optional {q : Option String} {u : Unit}
    (h : s.ensureOptionalProjectActive q = .ok u) : ∀ p, q = some p → s.HasProject p := by
  rintro p rfl
  exact hasProject_of_active h

section Rows

variable {ρ : Type} [ProjectChild ρ] {x : ρ}

theorem loadActive_eq_ok : s.loadActive id = .ok x ↔ (ProjectChild.table s).lookup id = some x
    ∧ s.ensureOptionalProjectActive (ProjectChild.projectId x) = .ok () := by
  simp only [loadActive, bind_eq_ok, pure_eq_ok, loadRow_eq_ok]
  constructor
  · rintro ⟨y, hy, _, hp, rfl⟩
    exact ⟨hy, hp⟩
  · rintro ⟨hx, hp⟩
    exact ⟨x, hx, (), hp, rfl⟩

/-- A verb that changes a row of an active project. -/
theorem updateRow_eq_ok {f : ρ → ρ} {r : Store × ρ} (h : s.updateRow id f = .ok r)
    (hf : ∀ x, ProjectChild.id (f x) = ProjectChild.id x) :
    ∃ x, ProjectChild.id x = id
      ∧ (ProjectChild.table s).lookup (ProjectChild.id (f x)) = some x
      ∧ r = (s.replaceRow (f x), f x) := by
  simp only [updateRow, bind_eq_ok, pure_eq_ok, loadActive_eq_ok] at h
  obtain ⟨x, ⟨hx, -⟩, rfl⟩ := h
  refine ⟨x, KeyedTable.key_eq hx, ?_, rfl⟩
  rw [hf, KeyedTable.key_eq hx]
  exact hx

theorem insertRow_eq_ok {taken : OrchdPersistError} (h : s.insertRow x taken = .ok t) :
    ∃ u, (ProjectChild.table s).insert x = some u ∧ t = ProjectChild.setTable s u := by
  unfold insertRow at h
  split at h
  · rename_i u hu
    cases h
    exact ⟨u, hu, rfl⟩
  · cases h

theorem deleteRow_eq_ok (h : s.deleteRow ρ id = .ok t) :
    t = s.keepRows fun x : ρ => ProjectChild.id x ≠ id := by
  simp only [deleteRow, bind_eq_ok, pure_eq_ok] at h
  obtain ⟨-, -, rfl⟩ := h
  rfl

end Rows

theorem insertNode_eq_ok {n : GraphNode} {taken : OrchdPersistError}
    (h : s.insertNode n taken = .ok t) :
    ∃ u, s.nodes.insert n = some u ∧ t = { s with nodes := u }
      ∧ (n.kind = .entityRef → s.hasEntityRef n.entityType n.entityId = false) := by
  simp only [insertNode, ite_error_eq_ok] at h
  obtain ⟨-, hone, h⟩ := h
  obtain ⟨u, hu, rfl⟩ := insertRow_eq_ok h
  refine ⟨u, hu, rfl, fun hk => ?_⟩
  simpa [hk] using hone

theorem insertWorkspaces_eq_ok {ws : List String} {ord : ℤ}
    (h : insertWorkspaces p ord ws s = .ok t) :
    ∃ u, t = { s with workspaces := u }
      ∧ ∀ w ∈ u.rows, w ∈ s.workspaces.rows ∨ w.projectId = p := by
  induction ws generalizing s ord with
  | nil =>
    cases h
    exact ⟨_, rfl, fun w hw => .inl hw⟩
  | cons w ws ih =>
    simp only [insertWorkspaces] at h
    split at h
    · cases h
    · rename_i v hv
      obtain ⟨u, rfl, hu⟩ := ih h
      refine ⟨u, rfl, fun x hx => ?_⟩
      rcases hu x hx with hx | hx
      · rw [(KeyedTable.insert_eq_some.1 hv).2, List.mem_append, List.mem_singleton] at hx
        rcases hx with hx | rfl
        · exact .inl hx
        · exact .inr rfl
      · exact .inr hx

end Guards

/-! ### Verbs -/

section Verbs

variable {s} {t : Store}

theorem createProject_write {app : FilePath} {name description : String} {ws : List String}
    {ids : ProjectIds} {now : ℤ} {r : Store × Project}
    (h : s.createProject app name description ws ids now = .ok r) : s.Write r.1 := by
  simp only [createProject, ite_throw_eq_ok, throw_bind, bind_eq_ok, pure_eq_ok] at h
  obtain ⟨-, s₁, h₁, s₂, h₂, s₃, h₃, s₄, h₄, s₅, h₅, x, -, rfl⟩ := h
  unfold insertProject at h₁
  split at h₁
  · rename_i projects hprojects
    cases h₁
    obtain ⟨workspaces, rfl, hlinks⟩ := insertWorkspaces_eq_ok h₂
    simp only [insertGoal, ite_error_eq_ok] at h₃
    obtain ⟨hstrategic, h₃⟩ := h₃
    obtain ⟨goals, hgoals, rfl⟩ := insertRow_eq_ok h₃
    obtain ⟨nodes, hnodes, rfl, hone⟩ := insertNode_eq_ok h₄
    simp only [insertProjectRuleset, ite_error_eq_ok] at h₅
    obtain ⟨hruleset, h₅⟩ := h₅
    obtain ⟨rulesets, hrulesets, rfl⟩ := insertRow_eq_ok h₅
    refine .newProject _ _ _ _ _
      { project := hprojects
        links := hlinks
        goal := hgoals
        goalOf := ⟨rfl, rfl, rfl⟩
        only := by simpa [hasStrategicGoal] using hstrategic
        node := hnodes
        nodeOf := ⟨rfl, rfl, rfl, rfl, rfl, rfl⟩
        onlyNode := hone rfl
        ruleset := hrulesets
        rulesetOf := ⟨rfl, rfl⟩
        onlyRuleset := by simpa [ProjectChild.setTable] using hruleset
        rest := rfl }
  · cases h₁

theorem ensureGoalKind_eq_ok {kind : GoalKind} {parent : Option String} {u : Unit}
    (h : ensureGoalKind kind parent = .ok u) : parent = none ↔ kind = .strategic := by
  unfold ensureGoalKind at h
  split at h
  · cases h
  · cases h
  · rename_i hadd hstr
    rcases kind with _ | _ <;> rcases parent with _ | q
    · simp
    · exact (hstr q rfl rfl).elim
    · exact (hadd rfl rfl).elim
    · simp

theorem ensureGoalParent_eq_ok {p message q : String} {u : Unit}
    (h : s.ensureGoalParent p message (some q) = .ok u) :
    ∃ g, s.goals.lookup q = some g ∧ g.projectId = p := by
  unfold ensureGoalParent at h
  dsimp only at h
  split at h
  · cases h
  · rename_i g hg
    simp only [ite_error_eq_ok, ne_eq, not_not] at h
    exact ⟨g, hg, h.1⟩

theorem createGoal_write {p : String} {parent : Option String} {kind : GoalKind}
    {title body id : String} {now : ℤ} {r : Store × Goal}
    (h : s.createGoal p parent kind title body id now = .ok r) : s.Write r.1 := by
  simp only [createGoal, ite_throw_eq_ok, throw_bind, bind_eq_ok, pure_eq_ok] at h
  obtain ⟨u, hu, _, hkind, _, hparent, hone, t, ht, rfl⟩ := h
  simp only [insertGoal, ite_error_eq_ok] at ht
  obtain ⟨goals, hgoals, rfl⟩ := insertRow_eq_ok ht.2
  refine .insertGoal _ _ hgoals (hasProject_of_active hu) (ensureGoalKind_eq_ok hkind) ?_ ?_
  · rintro q rfl
    exact ensureGoalParent_eq_ok hparent
  · rintro rfl
    simpa using hone

theorem moveGoal_write {id : String} {parent : Option String} {ord now : ℤ} {r : Store × Goal}
    (h : s.moveGoal id parent ord now = .ok r) : s.Write r.1 := by
  simp only [moveGoal, ite_throw_eq_ok, throw_bind, bind_eq_ok, pure_eq_ok, loadActive_eq_ok] at h
  obtain ⟨-, g, ⟨hg, -⟩, hadd, q, -, _, hq, below, hbelow, hnot, rfl⟩ := h
  obtain rfl := KeyedTable.key_eq hg
  obtain rfl := Bool.eq_false_iff.2 hnot
  exact .moveGoal g _ q hg rfl rfl rfl hadd (ensureGoalParent_eq_ok hq) hbelow

theorem deleteGoal_write {id : String} (h : s.deleteGoal id = .ok t) : s.Write t := by
  simp only [deleteGoal, ite_throw_eq_ok, throw_bind, bind_eq_ok, pure_eq_ok, loadActive_eq_ok] at h
  obtain ⟨g, ⟨hg, -⟩, hadd, rfl⟩ := h
  exact .deleteGoals g id hg hadd

theorem createGoal_rows {p : String} {parent : Option String} {kind : GoalKind}
    {title body id : String} {now : ℤ} {g : Goal}
    (h : s.createGoal p parent kind title body id now = .ok (t, g)) :
    s.goals.insert g = some t.goals ∧ g.id = id ∧ g.projectId = p ∧ g.parentId = parent ∧
      g.ord = s.nextGoalOrd p parent := by
  simp only [createGoal, ite_throw_eq_ok, throw_bind, bind_eq_ok, pure_eq_ok] at h
  obtain ⟨-, -, _, -, _, -, -, t', ht, h⟩ := h
  simp only [insertGoal, ite_error_eq_ok] at ht
  obtain ⟨goals, hgoals, rfl⟩ := insertRow_eq_ok ht.2
  obtain ⟨rfl, rfl⟩ := Prod.mk.inj h
  exact ⟨hgoals, rfl, rfl, rfl, rfl⟩

theorem moveGoal_rows {id : String} {parent : Option String} {ord now : ℤ} {g' : Goal}
    (h : s.moveGoal id parent ord now = .ok (t, g')) :
    ∃ g, s.goals.lookup id = some g ∧ t.goals = s.goals.replace g' ∧ g'.id = id ∧
      g'.projectId = g.projectId ∧ g'.parentId = parent ∧ g'.ord = ord := by
  simp only [moveGoal, ite_throw_eq_ok, throw_bind, bind_eq_ok, pure_eq_ok, loadActive_eq_ok] at h
  obtain ⟨-, g, ⟨hg, -⟩, -, q, hq, _, -, below, -, -, h⟩ := h
  obtain ⟨rfl, rfl⟩ := Prod.mk.inj h
  rcases parent with _ | parent
  · cases hq
  · cases hq
    have hid : g.id = id := KeyedTable.key_eq hg
    exact ⟨g, hg, rfl, hid, rfl, rfl, rfl⟩

theorem deleteGoal_rows {id : String} (h : s.deleteGoal id = .ok t) :
    t.goals = s.goals.keep fun g => !s.underGoal id g.id := by
  simp only [deleteGoal, ite_throw_eq_ok, throw_bind, bind_eq_ok, pure_eq_ok, loadActive_eq_ok] at h
  obtain ⟨-, -, -, rfl⟩ := h
  rfl

theorem createTask_write {p : String} {parent : Option String} {title body id : String}
    {status : Option TaskStatus} {source : TaskSource} {sourceId : Option String}
    {tags : List String} {priority : Option TaskPriority} {now : ℤ} {r : Store × DomainTask}
    (h : s.createTask p parent title body status source sourceId tags priority id now = .ok r) :
    s.Write r.1 := by
  simp only [createTask, bind_eq_ok, pure_eq_ok] at h
  obtain ⟨u, hu, _, hparent, t, ht, rfl⟩ := h
  obtain ⟨tasks, htasks, rfl⟩ := insertRow_eq_ok ht
  refine .insertTask _ _ htasks (hasProject_of_active hu) ?_ rfl
  rintro q rfl
  unfold ensureTaskParent at hparent
  dsimp only at hparent
  split at hparent
  · cases hparent
  · rename_i y hy
    simp only [ite_throw_eq_ok, throw_bind, ne_eq, not_not] at hparent
    exact ⟨y, hy, hparent.1⟩

theorem addEntityRefNode_write {p entityId : String} {i : Insight} {label id : String} {now : ℤ}
    {r : Store × GraphNode} (hi : s.insights.lookup entityId = some i) (hp : i.projectId = some p)
    (h : s.addEntityRefNode p .insight entityId label (.finite 0) (.finite 0) id now = .ok r) :
    s.Write r.1 := by
  simp only [addEntityRefNode, bind_eq_ok, pure_eq_ok] at h
  obtain ⟨_, -, u, hu, t, ht, rfl⟩ := h
  obtain ⟨nodes, hnodes, rfl, hone⟩ := insertNode_eq_ok ht
  obtain rfl := KeyedTable.key_eq hi
  exact .insertNode _ _ hnodes (hasProject_of_active hu) ⟨rfl, rfl⟩
    (.inr ⟨rfl, rfl, i, rfl, hi, hp⟩) hone

theorem lookup_replaceInsight {i i' : Insight} (h : s.insights.lookup i'.id = some i) :
    (s.replaceRow i').insights.lookup i'.id = some i' :=
  (KeyedTable.lookup_replace h).trans (if_pos rfl)

theorem setInsightStatus_writes {id nodeId : String} {status : InsightStatus}
    {reasoning : Option String} {now : ℤ} {r : Store × Insight}
    (h : s.setInsightStatus id status reasoning nodeId now = .ok r) : s.Writes r.1 := by
  simp only [setInsightStatus, bind_eq_ok] at h
  obtain ⟨⟨t, i⟩, ht, h⟩ := h
  obtain ⟨x, rfl, hx, hti⟩ := updateRow_eq_ok ht fun _ => rfl
  obtain ⟨rfl, rfl⟩ := Prod.mk.inj hti
  have hone := Relation.ReflTransGen.single (Write.replaceInsight (s := s) x _ hx rfl)
  dsimp only at h
  split at h
  · rename_i pid _ hp
    split at h
    · rename_i u n hu
      cases h
      have hlookup := lookup_replaceInsight (s := s) hx
      exact hone.tail (addEntityRefNode_write hlookup hp hu)
    · cases h
      exact hone
  · cases h
    exact hone

theorem startResearchRun_writes {id : String} {serverExists : Bool} {now : ℤ} {r : Store × Bool}
    (h : s.startResearchRun id serverExists now = .ok r) : s.Writes r.1 := by
  simp only [startResearchRun, ite_throw_eq_ok, throw_bind, bind_eq_ok, loadActive_eq_ok] at h
  obtain ⟨i, ⟨hi, -⟩, -, h⟩ := h
  obtain rfl := KeyedTable.key_eq hi
  split_ifs at h
  · cases h
    exact .single (.replaceIdea i _ hi (.inl rfl))
  · cases h
    exact .refl

theorem ensureFiniteGraphPos_eq_ok {posX posY : F64} {u : Unit}
    (h : ensureFiniteGraphPos posX posY = .ok u) : posX.isFinite = true ∧ posY.isFinite = true := by
  unfold ensureFiniteGraphPos at h
  split_ifs at h with hfin
  simpa using hfin

theorem addNode_write {p : String} {kind : GraphNodeKind} {label body id : String} {posX posY : F64}
    {now : ℤ} {r : Store × GraphNode} (h : s.addNode p kind label body posX posY id now = .ok r) :
    s.Write r.1 := by
  simp only [addNode, ite_throw_eq_ok, throw_bind, bind_eq_ok, pure_eq_ok] at h
  obtain ⟨hkind, _, hpos, u, hu, t, ht, rfl⟩ := h
  obtain ⟨nodes, hnodes, rfl, hone⟩ := insertNode_eq_ok ht
  exact .insertNode _ _ hnodes (hasProject_of_active hu) (ensureFiniteGraphPos_eq_ok hpos)
    (.inl ⟨hkind, rfl, rfl⟩) hone

theorem deleteNode_write {id : String} {expected : Option String}
    (h : s.deleteNode id expected = .ok t) : s.Write t := by
  simp only [deleteNode, bind_eq_ok, pure_eq_ok] at h
  obtain ⟨-, -, -, -, u, hu, rfl⟩ := h
  rw [deleteRow_eq_ok hu]
  exact .deleteNode id

theorem nodeProjectId_eq_ok {id p : String} (h : s.nodeProjectId id = .ok p) :
    (s.nodes.lookup id).isSome := by
  unfold nodeProjectId at h
  split at h
  · rename_i n hn
    simp [hn]
  · cases h

theorem insertEdge_write {e : GraphEdge} {taken : OrchdPersistError}
    (hends : (s.nodes.lookup e.sourceNodeId).isSome ∧ (s.nodes.lookup e.targetNodeId).isSome)
    (h : s.insertEdge e taken = .ok t) : s.Write t := by
  simp only [insertEdge, ite_error_eq_ok] at h
  obtain ⟨hne, hone, h⟩ := h
  split at h
  · rename_i u hu
    cases h
    exact .insertEdge e u hu hends hne (Bool.eq_false_iff.2 hone)
  · cases h

theorem addEdge_write {source target : String} {kind : GraphEdgeKind} {label id : String} {now : ℤ}
    {r : Store × GraphEdge} (h : s.addEdge source target kind label id now = .ok r) :
    s.Write r.1 := by
  simp only [addEdge, ite_throw_eq_ok, throw_bind, bind_eq_ok, pure_eq_ok] at h
  obtain ⟨-, sp, hsp, tp, htp, -, -, -, -, t, ht, rfl⟩ := h
  exact insertEdge_write ⟨nodeProjectId_eq_ok hsp, nodeProjectId_eq_ok htp⟩ ht

theorem loadActiveEdge_eq_ok {id : String} {e : GraphEdge} (h : s.loadActiveEdge id = .ok e) :
    s.edges.lookup id = some e := by
  unfold loadActiveEdge at h
  split at h
  · cases h
  · rename_i x hx
    simp only [bind_eq_ok] at h
    obtain ⟨sp, -, tp, -, -, -, h⟩ := h
    split_ifs at h
    · simp only [bind_eq_ok, pure_eq_ok] at h
      obtain ⟨-, -, rfl⟩ := h
      exact hx
    · cases h
      exact hx

theorem updateEdge_write {id : String} {kind : GraphEdgeKind} {r : Store × GraphEdge}
    (h : s.updateEdge id kind = .ok r) : s.Write r.1 := by
  simp only [updateEdge, ite_throw_eq_ok, throw_bind, bind_eq_ok, pure_eq_ok] at h
  obtain ⟨e, he, hone, rfl⟩ := h
  have he := loadActiveEdge_eq_ok he
  obtain rfl := KeyedTable.key_eq he
  exact .replaceEdge e _ he ⟨rfl, rfl⟩ (Bool.eq_false_iff.2 hone)

theorem setProject_write {id : String} {f : ProjectRow → ProjectRow} (hf : ∀ x, (f x).id = x.id) :
    s.Write (s.setProject id f) := .setProject id f hf

theorem addProjectWorkspace_write {p w : String} {r : Store × Project}
    (h : s.addProjectWorkspace p w = .ok r) : s.Write r.1 := by
  simp only [addProjectWorkspace, bind_eq_ok, pure_eq_ok] at h
  obtain ⟨_, hp, t, ht, x, -, rfl⟩ := h
  obtain ⟨u, rfl, hu⟩ := insertWorkspaces_eq_ok ht
  refine .workspaces u fun w hw => (hu w hw).imp_right ?_
  rintro rfl
  exact hasProject_of_active hp

theorem removeProjectWorkspace_write {p w : String} {r : Store × Project}
    (h : s.removeProjectWorkspace p w = .ok r) : s.Write r.1 := by
  simp only [removeProjectWorkspace, ite_throw_eq_ok, throw_bind, bind_eq_ok, pure_eq_ok] at h
  obtain ⟨-, -, -, x, -, rfl⟩ := h
  exact .workspaces _ fun w hw => .inl (List.mem_filter.1 hw).1

end Verbs

end Store

namespace Orchd

open Store

variable {host : Host} {o o' : Orchd}

theorem loadRulesetByScope_eq_ok {s : Store} {scope : RuleScope} {pid : Option String} {r : RuleSet}
    (h : loadRulesetByScope s scope pid = .ok r) :
    s.rulesets.lookup r.id = some r ∧ r.scope = scope ∧ r.projectId = pid := by
  unfold loadRulesetByScope at h
  split at h
  · rename_i r' hr
    cases h
    have := List.find?_some hr
    simp only [decide_eq_true_eq] at this
    exact ⟨KeyedTable.mem_rows.1 (List.mem_of_find?_eq_some hr), this⟩
  · cases h

theorem findDoc_eq_some {s : Store} {pid name : String} {d : Doc} (h : findDoc s pid name = some d) :
    s.docs.lookup d.id = some d ∧ d.projectId = pid ∧ d.name = name := by
  have := List.find?_some h
  simp only [decide_eq_true_eq] at this
  exact ⟨KeyedTable.mem_rows.1 (List.mem_of_find?_eq_some h), this⟩

theorem upsertRuleset_write {scope : RuleScope} {pid content : Option String}
    {path : Option FilePath} {policy : Option PolicyRules} {now : ℤ} {r : Orchd × RuleSet}
    (h : o.upsertRuleset host scope pid content path policy now = .ok r) :
    o.db.Write r.1.db := by
  simp only [upsertRuleset, bind_eq_ok, pure_eq_ok] at h
  obtain ⟨-, -, pol, -, -, -, row, hrow, ⟨files, hash⟩, -, rfl⟩ := h
  exact .replaceRuleset row _ (loadRulesetByScope_eq_ok hrow).1 rfl rfl

theorem insertGlobalRuleset_writes {s : Store} {r : RuleSet}
    (hr : r.scope = .global ∧ r.projectId = none) : s.Writes (insertGlobalRuleset s r) := by
  unfold insertGlobalRuleset
  split_ifs with hany
  · exact .refl
  · split
    · rename_i u hu
      refine .single (.insertGlobalRuleset r u hu hr fun q hq hscope => hany ?_)
      exact List.any_eq_true.2 ⟨q, hq, by simp [hscope]⟩
    · exact .refl

theorem upsertDoc_write {pid name content id : String} {now : ℤ} {r : Orchd × Doc}
    (h : o.upsertDoc host pid name content id now = .ok r) : o.db.Write r.1.db := by
  simp only [upsertDoc, bind_eq_ok] at h
  obtain ⟨_, hname, u, hu, h⟩ := h
  split at h
  · rename_i doc hdoc
    simp only [bind_eq_ok, pure_eq_ok] at h
    obtain ⟨⟨files, hash⟩, -, rfl⟩ := h
    exact .replaceDoc doc _ (findDoc_eq_some hdoc).1 rfl rfl
  · rename_i hnone
    simp only [bind_eq_ok] at h
    obtain ⟨row, -, h⟩ := h
    split at h
    · cases h
    · simp only [bind_eq_ok, pure_eq_ok] at h
      obtain ⟨⟨files, hash⟩, -, t, ht, rfl⟩ := h
      obtain ⟨docs, hdocs, rfl⟩ := insertRow_eq_ok ht
      refine .insertDoc _ _ hdocs (hasProject_of_active hu) hname fun e he hp hn => ?_
      have := List.find?_eq_none.1 hnone e he
      simp [hp, hn] at this

theorem storeWorkflow_write {s : Store} {x : WorkflowRow} {r : Store × WorkflowRow}
    (hp : ∀ p, x.projectId = some p → s.HasProject p) (h : storeWorkflow s x = .ok r) :
    s.Write r.1 := by
  unfold storeWorkflow at h
  split at h
  · cases h
    refine .workflows _ fun w hw => ?_
    rcases KeyedTable.mem_replace.1 hw with ⟨rfl, -⟩ | ⟨hw, -⟩
    · exact .inr hp
    · exact .inl hw
  · simp only [map_eq_ok] at h
    obtain ⟨t, ht, rfl⟩ := h
    obtain ⟨u, hu, rfl⟩ := insertRow_eq_ok ht
    refine .workflows _ fun w hw => ?_
    rw [(KeyedTable.insert_eq_some.1 hu).2, List.mem_append, List.mem_singleton] at hw
    rcases hw with hw | rfl
    · exact .inl hw
    · exact .inr hp

theorem upsertWorkflow_write {id newId : String} {w : WorkflowFields} {now : ℤ}
    {r : Orchd × WorkflowRow} (h : o.upsertWorkflow host id w newId now = .ok r) :
    o.db.Write r.1.db := by
  simp only [upsertWorkflow, bind_eq_ok, pure_eq_ok] at h
  obtain ⟨-, -, u, hu, existing, -, ⟨files, hash⟩, -, ⟨t, row⟩, hrow, rfl⟩ := h
  exact storeWorkflow_write (hasProject_of_optional hu) hrow

theorem onStore_eq_ok {α : Type} {x : Except OrchdPersistError (Store × α)} :
    o.onStore x = .ok o' ↔ ∃ r, x = .ok r ∧ ⟨r.1, o.files⟩ = o' := map_eq_ok

/-- A request that is served writes to the store what its verb may. -/
theorem handle_writes {r : DomainRequest} (h : o.handle host r = .ok o') :
    o.db.Writes o'.db := by
  cases r <;> simp only [handle, onStore_eq_ok, map_eq_ok] at h
  case createProject =>
    obtain ⟨r, hr, rfl⟩ := h
    exact .single (createProject_write hr)
  case updateProject =>
    obtain ⟨r, hr, rfl⟩ := h
    simp only [updateProject, bind_eq_ok, pure_eq_ok] at hr
    obtain ⟨-, -, x, -, rfl⟩ := hr
    exact .single (setProject_write fun x => by split_ifs <;> rfl)
  case archiveProject =>
    obtain ⟨r, hr, rfl⟩ := h
    simp only [archiveProject, bind_eq_ok, pure_eq_ok] at hr
    obtain ⟨-, -, x, -, rfl⟩ := hr
    exact .single (setProject_write fun _ => rfl)
  case unarchiveProject =>
    obtain ⟨r, hr, rfl⟩ := h
    unfold unarchiveProject at hr
    split at hr
    · cases hr
    · simp only [ite_throw_eq_ok, throw_bind, bind_eq_ok, pure_eq_ok] at hr
      obtain ⟨-, x, -, rfl⟩ := hr
      exact .single (setProject_write fun _ => rfl)
  case addProjectWorkspace =>
    obtain ⟨r, hr, rfl⟩ := h
    exact .single (addProjectWorkspace_write hr)
  case removeProjectWorkspace =>
    obtain ⟨r, hr, rfl⟩ := h
    exact .single (removeProjectWorkspace_write hr)
  case createGoal =>
    obtain ⟨r, hr, rfl⟩ := h
    exact .single (createGoal_write hr)
  case moveGoal =>
    obtain ⟨r, hr, rfl⟩ := h
    exact .single (moveGoal_write hr)
  case deleteGoal =>
    obtain ⟨r, hr, rfl⟩ := h
    exact .single (deleteGoal_write hr)
  case createTask =>
    obtain ⟨r, hr, rfl⟩ := h
    exact .single (createTask_write hr)
  case addNode =>
    obtain ⟨r, hr, rfl⟩ := h
    exact .single (addNode_write hr)
  case deleteNode =>
    obtain ⟨r, hr, rfl⟩ := h
    exact .single (deleteNode_write hr)
  case addEdge =>
    obtain ⟨r, hr, rfl⟩ := h
    exact .single (addEdge_write hr)
  case updateEdge =>
    obtain ⟨r, hr, rfl⟩ := h
    exact .single (updateEdge_write hr)
  case upsertRuleset =>
    obtain ⟨r, hr, rfl⟩ := h
    exact .single (upsertRuleset_write hr)
  case upsertDoc =>
    obtain ⟨r, hr, rfl⟩ := h
    exact .single (upsertDoc_write hr)
  case upsertWorkflow =>
    obtain ⟨r, hr, rfl⟩ := h
    exact .single (upsertWorkflow_write hr)
  case setInsightStatus =>
    obtain ⟨r, hr, rfl⟩ := h
    exact setInsightStatus_writes hr
  case startResearchRun =>
    obtain ⟨r, hr, rfl⟩ := h
    exact startResearchRun_writes hr
  case updateGoal =>
    obtain ⟨r, hr, rfl⟩ := h
    obtain ⟨x, rfl, hx, rfl⟩ := updateRow_eq_ok hr fun x => by split_ifs <;> rfl
    exact .single (.replaceGoal x _ hx (by split_ifs <;> rfl) (by split_ifs <;> rfl)
      (by split_ifs <;> rfl))
  case createIdea =>
    obtain ⟨r, hr, rfl⟩ := h
    simp only [createIdea, bind_eq_ok, pure_eq_ok] at hr
    obtain ⟨_, hp, t, ht, rfl⟩ := hr
    obtain ⟨u, hu, rfl⟩ := insertRow_eq_ok ht
    exact .single (.insertIdea _ u hu (hasProject_of_optional hp))
  case setIdeaProject =>
    obtain ⟨r, hr, rfl⟩ := h
    simp only [setIdeaProject, bind_eq_ok, pure_eq_ok, loadActive_eq_ok] at hr
    obtain ⟨i, ⟨hi, -⟩, _, hp, rfl⟩ := hr
    obtain rfl := KeyedTable.key_eq hi
    exact .single (.replaceIdea i _ hi (.inr (hasProject_of_optional hp)))
  case updateIdea =>
    obtain ⟨r, hr, rfl⟩ := h
    obtain ⟨x, rfl, hx, rfl⟩ := updateRow_eq_ok hr fun x => by split_ifs <;> rfl
    exact .single (.replaceIdea x _ hx (.inl (by split_ifs <;> rfl)))
  case setIdeaLifecycle =>
    obtain ⟨r, hr, rfl⟩ := h
    obtain ⟨x, rfl, hx, rfl⟩ := updateRow_eq_ok hr fun _ => rfl
    exact .single (.replaceIdea x _ hx (.inl rfl))
  case deleteIdea =>
    obtain ⟨t, ht, rfl⟩ := h
    rw [deleteRow_eq_ok ht]
    exact .single (.keepIdeas _)
  case deleteInsight =>
    obtain ⟨t, ht, rfl⟩ := h
    rw [deleteRow_eq_ok ht]
    exact .single (.keepInsights _)
  case createInsight =>
    obtain ⟨r, hr, rfl⟩ := h
    simp only [createInsight, bind_eq_ok, pure_eq_ok] at hr
    obtain ⟨_, hp, t, ht, rfl⟩ := hr
    obtain ⟨u, hu, rfl⟩ := insertRow_eq_ok ht
    exact .single (.insertInsight _ u hu (hasProject_of_optional hp) rfl)
  case updateInsight =>
    obtain ⟨r, hr, rfl⟩ := h
    obtain ⟨x, rfl, hx, rfl⟩ := updateRow_eq_ok hr fun x => by split_ifs <;> rfl
    exact .single (.replaceInsight x _ hx (by split_ifs <;> rfl))
  case setInsightFitVerdict =>
    obtain ⟨r, hr, rfl⟩ := h
    obtain ⟨x, rfl, hx, rfl⟩ := updateRow_eq_ok hr fun _ => rfl
    exact .single (.replaceInsight x _ hx rfl)
  case updateTask =>
    obtain ⟨r, hr, rfl⟩ := h
    obtain ⟨x, rfl, hx, rfl⟩ := updateRow_eq_ok hr fun x => by split_ifs <;> rfl
    exact .single (.replaceTask x _ hx (by split_ifs <;> rfl) (by split_ifs <;> rfl)
      (.inl (by split_ifs <;> rfl)))
  case setTaskStatus =>
    obtain ⟨r, hr, rfl⟩ := h
    obtain ⟨x, rfl, hx, rfl⟩ := updateRow_eq_ok hr fun _ => rfl
    exact .single (.replaceTask x _ hx rfl rfl (.inl rfl))
  case setTaskPriority =>
    obtain ⟨r, hr, rfl⟩ := h
    obtain ⟨x, rfl, hx, rfl⟩ := updateRow_eq_ok hr fun _ => rfl
    exact .single (.replaceTask x _ hx rfl rfl (.inl rfl))
  case setTaskRank =>
    obtain ⟨r, hr, rfl⟩ := h
    simp only [setTaskRank, ite_throw_eq_ok, throw_bind] at hr
    obtain ⟨x, rfl, hx, rfl⟩ := updateRow_eq_ok hr.2 fun _ => rfl
    exact .single (.replaceTask x _ hx rfl rfl (.inr (by simpa using hr.1)))
  case deleteTask id =>
    obtain ⟨t, ht, rfl⟩ := h
    simp only [deleteTask, bind_eq_ok, pure_eq_ok] at ht
    obtain ⟨x, -, rfl⟩ := ht
    exact .single (.deleteTasks id)
  case acknowledgeRuleFile =>
    obtain ⟨r, hr, rfl⟩ := h
    simp only [acknowledgeRuleFile, acknowledge, bind_eq_ok, pure_eq_ok] at hr
    obtain ⟨row, -, content, -, ⟨s, x⟩, hs, rfl⟩ := hr
    obtain ⟨y, rfl, hy, hyx⟩ := updateRow_eq_ok hs fun _ => rfl
    obtain ⟨rfl, rfl⟩ := Prod.mk.inj hyx
    exact .single (.replaceRuleset y _ hy rfl rfl)
  case acknowledgeDocFile =>
    obtain ⟨r, hr, rfl⟩ := h
    simp only [acknowledgeDocFile, acknowledge, bind_eq_ok, pure_eq_ok] at hr
    obtain ⟨row, -, content, -, ⟨s, x⟩, hs, rfl⟩ := hr
    obtain ⟨y, rfl, hy, hyx⟩ := updateRow_eq_ok hs fun _ => rfl
    obtain ⟨rfl, rfl⟩ := Prod.mk.inj hyx
    exact .single (.replaceDoc y _ hy rfl rfl)
  case ensureGlobalRuleset =>
    simp only [ensureGlobalRuleset, bind_eq_ok, pure_eq_ok] at h
    obtain ⟨files, -, content, -, rfl⟩ := h
    exact insertGlobalRuleset_writes ⟨rfl, rfl⟩
  case deleteDoc =>
    obtain ⟨r, hr, rfl⟩ := h
    simp only [deleteDoc, bind_eq_ok, pure_eq_ok] at hr
    obtain ⟨doc, -, files, -, rfl⟩ := hr
    exact .single (.keepDocs _)
  case deleteWorkflow =>
    simp only [deleteWorkflow, bind_eq_ok, pure_eq_ok] at h
    obtain ⟨row, -, files, -, rfl⟩ := h
    exact .single (.workflows _ fun w hw => .inl (List.mem_filter.1 hw).1)
  case updateNode =>
    obtain ⟨r, hr, rfl⟩ := h
    simp only [updateNode, bind_eq_ok] at hr
    obtain ⟨-, -, -, -, hr⟩ := hr
    obtain ⟨x, rfl, hx, rfl⟩ := updateRow_eq_ok hr fun x => by split_ifs <;> rfl
    refine .single (.replaceNode x _ hx (by split_ifs <;> rfl) ?_ (.inl ?_))
    · split_ifs <;> exact ⟨rfl, rfl, rfl⟩
    · split_ifs <;> exact ⟨rfl, rfl⟩
  case moveNode =>
    obtain ⟨r, hr, rfl⟩ := h
    simp only [moveNode, bind_eq_ok] at hr
    obtain ⟨_, hpos, -, -, -, -, hr⟩ := hr
    obtain ⟨x, rfl, hx, rfl⟩ := updateRow_eq_ok hr fun _ => rfl
    exact .single (.replaceNode x _ hx rfl ⟨rfl, rfl, rfl⟩ (.inr (ensureFiniteGraphPos_eq_ok hpos)))
  case deleteEdge =>
    obtain ⟨t, ht, rfl⟩ := h
    simp only [deleteEdge, bind_eq_ok, pure_eq_ok] at ht
    obtain ⟨e, -, rfl⟩ := ht
    exact .single (.keepEdges _)
  case editFile =>
    cases h
    exact .refl

end Orchd

end BuilderPro
