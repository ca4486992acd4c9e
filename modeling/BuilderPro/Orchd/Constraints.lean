import BuilderPro.Orchd.Trees

/-!
# The constraints of the tables

The schema of `orchd.db` has foreign keys, unique indexes and checks.  The verbs' own guards are
enough for them: along every run, imports included, whatever a row refers to is there
(`references_throughout`), and no two rows stand for one thing (`unique_throughout`).
-/

namespace BuilderPro

open Results

namespace Store

variable {s t : Store} {p : String}

/-! ### Foreign keys -/

/-- Whatever a row refers to is there. -/
structure Referential (s : Store) : Prop where
  workspaces : ∀ w ∈ s.workspaces.rows, s.HasProject w.projectId
  goals : ∀ g ∈ s.goals.rows,
    s.HasProject g.projectId ∧ ∀ q, g.parentId = some q → (s.goals.lookup q).isSome
  ideas : ∀ i ∈ s.ideas.rows, ∀ p, i.projectId = some p → s.HasProject p
  insights : ∀ i ∈ s.insights.rows, ∀ p, i.projectId = some p → s.HasProject p
  tasks : ∀ x ∈ s.tasks.rows,
    s.HasProject x.projectId ∧ ∀ q, x.parentId = some q → (s.tasks.lookup q).isSome
  rulesets : ∀ r ∈ s.rulesets.rows, ∀ p, r.projectId = some p → s.HasProject p
  docs : ∀ d ∈ s.docs.rows, s.HasProject d.projectId
  workflows : ∀ w ∈ s.workflows.rows, ∀ p, w.projectId = some p → s.HasProject p
  nodes : ∀ n ∈ s.nodes.rows, s.HasProject n.projectId
  edges : ∀ e ∈ s.edges.rows,
    (s.nodes.lookup e.sourceNodeId).isSome ∧ (s.nodes.lookup e.targetNodeId).isSome

theorem foreignKeysHold_iff : s.foreignKeysHold = true ↔ s.Referential := by
  simp only [foreignKeysHold, Bool.and_eq_true, List.all_eq_true, Option.all_eq_true]
  constructor
  · rintro ⟨⟨⟨⟨⟨⟨⟨⟨⟨hw, hg⟩, hi⟩, hs⟩, ht⟩, hr⟩, hd⟩, hf⟩, hn⟩, he⟩
    exact ⟨hw, hg, hi, hs, ht, hr, hd, hf, hn, he⟩
  · rintro ⟨hw, hg, hi, hs, ht, hr, hd, hf, hn, he⟩
    exact ⟨⟨⟨⟨⟨⟨⟨⟨⟨hw, hg⟩, hi⟩, hs⟩, ht⟩, hr⟩, hd⟩, hf⟩, hn⟩, he⟩

/-- No write takes a project away. -/
theorem Write.hasProject (hw : s.Write t) (hp : s.HasProject p) : t.HasProject p := by
  cases hw with
  | setProject id f hf => exact (hasProject_setProject hf).2 hp
  | newProject t x g n r h => exact KeyedTable.isSome_insert h.project hp
  | _ => exact hp

theorem NewProject.hasProject {x : ProjectRow} {g : Goal} {n : GraphNode} {r : RuleSet}
    (h : s.NewProject t x g n r) : t.HasProject x.id := by
  rw [HasProject, KeyedTable.lookup_insert h.project, if_pos rfl]
  rfl

theorem Write.referential_workspaces (h : s.Referential) (hw : s.Write t) :
    ∀ w ∈ t.workspaces.rows, t.HasProject w.projectId := by
  intro w hmem
  cases hw with
  | setProject id f hf => exact (hasProject_setProject hf).2 (h.workspaces w hmem)
  | newProject t x g n r hnew =>
    rcases hnew.links w hmem with hold | hp
    · exact KeyedTable.isSome_insert hnew.project (h.workspaces w hold)
    · exact hp ▸ hnew.hasProject
  | workspaces u hu => exact (hu w hmem).elim (h.workspaces w) id
  | _ => exact h.workspaces w hmem

theorem Write.referential_goals (h : s.Referential) (hw : s.Write t) : ∀ g ∈ t.goals.rows,
    t.HasProject g.projectId ∧ ∀ q, g.parentId = some q → (t.goals.lookup q).isSome := by
  intro g hmem
  cases hw with
  | setProject id f hf =>
    exact ⟨(hasProject_setProject hf).2 (h.goals g hmem).1, (h.goals g hmem).2⟩
  | newProject t x g' n r hnew =>
    rcases (KeyedTable.mem_insert hnew.goal).1 hmem with hold | rfl
    · exact ⟨KeyedTable.isSome_insert hnew.project (h.goals g hold).1,
        fun q hq => KeyedTable.isSome_insert hnew.goal ((h.goals g hold).2 q hq)⟩
    · refine ⟨hnew.goalOf.1 ▸ hnew.hasProject, fun q hq => ?_⟩
      rw [hnew.goalOf.2.1] at hq
      cases hq
  | insertGoal g' u hu hp hroot hparent =>
    rcases (KeyedTable.mem_insert hu).1 hmem with hold | rfl
    · exact ⟨(h.goals g hold).1, fun q hq => KeyedTable.isSome_insert hu ((h.goals g hold).2 q hq)⟩
    · refine ⟨hp, fun q hq => KeyedTable.isSome_insert hu ?_⟩
      obtain ⟨y, hy, -⟩ := hparent q hq
      exact Option.isSome_of_eq_some hy
  | replaceGoal g₀ g' hg hp hparent =>
    simp only [KeyedTable.isSome_replace]
    rcases KeyedTable.mem_replace.1 hmem with ⟨rfl, -⟩ | ⟨hold, -⟩
    · rw [hp, hparent]
      exact h.goals g₀ (KeyedTable.lookup_eq_some.1 hg).1
    · exact h.goals g hold
  | moveGoal g₀ g' q hg hp hparent hkind hadd hq =>
    simp only [KeyedTable.isSome_replace]
    rcases KeyedTable.mem_replace.1 hmem with ⟨rfl, -⟩ | ⟨hold, -⟩
    · rw [hp, hparent]
      refine ⟨(h.goals g₀ (KeyedTable.lookup_eq_some.1 hg).1).1, ?_⟩
      rintro _ ⟨⟩
      obtain ⟨y, hy, -⟩ := hq
      exact Option.isSome_of_eq_some hy
    · exact h.goals g hold
  | deleteGoals g₀ id =>
    exact ⟨(h.goals g (List.mem_filter.1 hmem).1).1, fun q hq =>
      KeyedTable.parent_mem_prune (fun x hx => (h.goals x hx).2) id hmem hq⟩
  | _ => exact h.goals g hmem

theorem Write.referential_tasks (h : s.Referential) (hw : s.Write t) : ∀ x ∈ t.tasks.rows,
    t.HasProject x.projectId ∧ ∀ q, x.parentId = some q → (t.tasks.lookup q).isSome := by
  intro x hmem
  have hold : x ∈ s.tasks.rows →
      t.HasProject x.projectId ∧ ∀ q, x.parentId = some q → (s.tasks.lookup q).isSome :=
    fun hx => ⟨hw.hasProject (h.tasks x hx).1, (h.tasks x hx).2⟩
  cases hw with
  | newProject t x' g n r hnew =>
    rw [hnew.rest] at hmem ⊢
    exact hold hmem
  | insertTask x' u hu hp hparent =>
    rcases (KeyedTable.mem_insert hu).1 hmem with hmem | rfl
    · exact ⟨(hold hmem).1, fun q hq => KeyedTable.isSome_insert hu ((hold hmem).2 q hq)⟩
    · refine ⟨hp, fun q hq => KeyedTable.isSome_insert hu ?_⟩
      obtain ⟨y, hy, -⟩ := hparent q hq
      exact Option.isSome_of_eq_some hy
  | replaceTask x₀ x' hx hp hparent =>
    simp only [KeyedTable.isSome_replace]
    rcases KeyedTable.mem_replace.1 hmem with ⟨rfl, -⟩ | ⟨hmem, -⟩
    · rw [hp, hparent]
      exact h.tasks x₀ (KeyedTable.lookup_eq_some.1 hx).1
    · exact hold hmem
  | deleteTasks id =>
    exact ⟨(h.tasks x (List.mem_filter.1 hmem).1).1, fun q hq =>
      KeyedTable.parent_mem_prune (fun x hx => (h.tasks x hx).2) id hmem hq⟩
  | _ => exact hold hmem

theorem Write.referential_ideas (h : s.Referential) (hw : s.Write t) :
    ∀ i ∈ t.ideas.rows, ∀ p, i.projectId = some p → t.HasProject p := by
  intro i hmem p hp
  have hold : i ∈ s.ideas.rows → t.HasProject p := fun hi => hw.hasProject (h.ideas i hi p hp)
  cases hw with
  | newProject t x g n r hnew =>
    rw [hnew.rest] at hmem
    exact hold hmem
  | insertIdea i' u hu hproject =>
    rcases (KeyedTable.mem_insert hu).1 hmem with hmem | rfl
    · exact hold hmem
    · exact hproject p hp
  | replaceIdea i₀ i' hi hproject =>
    rcases KeyedTable.mem_replace.1 hmem with ⟨rfl, -⟩ | ⟨hmem, -⟩
    · rcases hproject with hsame | hproject
      · exact h.ideas i₀ (KeyedTable.lookup_eq_some.1 hi).1 p (hsame.symm.trans hp)
      · exact hproject p hp
    · exact hold hmem
  | keepIdeas r => exact hold (List.mem_filter.1 hmem).1
  | _ => exact hold hmem

theorem Write.referential_insights (h : s.Referential) (hw : s.Write t) :
    ∀ i ∈ t.insights.rows, ∀ p, i.projectId = some p → t.HasProject p := by
  intro i hmem p hp
  have hold : i ∈ s.insights.rows → t.HasProject p :=
    fun hi => hw.hasProject (h.insights i hi p hp)
  cases hw with
  | newProject t x g n r hnew =>
    rw [hnew.rest] at hmem
    exact hold hmem
  | insertInsight i' u hu hproject =>
    rcases (KeyedTable.mem_insert hu).1 hmem with hmem | rfl
    · exact hold hmem
    · exact hproject p hp
  | replaceInsight i₀ i' hi hproject =>
    rcases KeyedTable.mem_replace.1 hmem with ⟨rfl, -⟩ | ⟨hmem, -⟩
    · exact h.insights i₀ (KeyedTable.lookup_eq_some.1 hi).1 p (hproject.symm.trans hp)
    · exact hold hmem
  | keepInsights r => exact hold (List.mem_filter.1 hmem).1
  | _ => exact hold hmem

theorem Write.referential_rulesets (h : s.Referential) (hw : s.Write t) :
    ∀ r ∈ t.rulesets.rows, ∀ p, r.projectId = some p → t.HasProject p := by
  intro r hmem p hp
  have hold : r ∈ s.rulesets.rows → t.HasProject p :=
    fun hr => hw.hasProject (h.rulesets r hr p hp)
  cases hw with
  | newProject t x g n r' hnew =>
    rcases (KeyedTable.mem_insert hnew.ruleset).1 hmem with hmem | rfl
    · exact hold hmem
    · obtain rfl := Option.some.inj (hnew.rulesetOf.2.symm.trans hp)
      exact hnew.hasProject
  | replaceRuleset r₀ r' hr hscope hproject =>
    rcases KeyedTable.mem_replace.1 hmem with ⟨rfl, -⟩ | ⟨hmem, -⟩
    · exact h.rulesets r₀ (KeyedTable.lookup_eq_some.1 hr).1 p (hproject.symm.trans hp)
    · exact hold hmem
  | insertGlobalRuleset r' u hu hr =>
    rcases (KeyedTable.mem_insert hu).1 hmem with hmem | rfl
    · exact hold hmem
    · rw [hr.2] at hp
      cases hp
  | _ => exact hold hmem

theorem Write.referential_docs (h : s.Referential) (hw : s.Write t) :
    ∀ d ∈ t.docs.rows, t.HasProject d.projectId := by
  intro d hmem
  have hold : d ∈ s.docs.rows → t.HasProject d.projectId := fun hd => hw.hasProject (h.docs d hd)
  cases hw with
  | newProject t x g n r hnew =>
    rw [hnew.rest] at hmem
    exact hold hmem
  | insertDoc d' u hu hproject =>
    rcases (KeyedTable.mem_insert hu).1 hmem with hmem | rfl
    · exact hold hmem
    · exact hproject
  | replaceDoc d₀ d' hd hproject =>
    rcases KeyedTable.mem_replace.1 hmem with ⟨rfl, -⟩ | ⟨hmem, -⟩
    · rw [hproject]
      exact h.docs d₀ (KeyedTable.lookup_eq_some.1 hd).1
    · exact hold hmem
  | keepDocs r => exact hold (List.mem_filter.1 hmem).1
  | _ => exact hold hmem

theorem Write.referential_workflows (h : s.Referential) (hw : s.Write t) :
    ∀ w ∈ t.workflows.rows, ∀ p, w.projectId = some p → t.HasProject p := by
  intro w hmem p hp
  have hold : w ∈ s.workflows.rows → t.HasProject p :=
    fun hmem => hw.hasProject (h.workflows w hmem p hp)
  cases hw with
  | newProject t x g n r hnew =>
    rw [hnew.rest] at hmem
    exact hold hmem
  | workflows u hu =>
    rcases hu w hmem with hmem | hproject
    · exact hold hmem
    · exact hproject p hp
  | _ => exact hold hmem

theorem Write.referential_nodes (h : s.Referential) (hw : s.Write t) :
    ∀ n ∈ t.nodes.rows, t.HasProject n.projectId := by
  intro n hmem
  have hold : n ∈ s.nodes.rows → t.HasProject n.projectId := fun hn => hw.hasProject (h.nodes n hn)
  cases hw with
  | newProject t x g n' r hnew =>
    rcases (KeyedTable.mem_insert hnew.node).1 hmem with hmem | rfl
    · exact hold hmem
    · exact hnew.nodeOf.1 ▸ hnew.hasProject
  | insertNode n' u hu hproject =>
    rcases (KeyedTable.mem_insert hu).1 hmem with hmem | rfl
    · exact hold hmem
    · exact hproject
  | replaceNode n₀ n' hn hproject =>
    rcases KeyedTable.mem_replace.1 hmem with ⟨rfl, -⟩ | ⟨hmem, -⟩
    · rw [hproject]
      exact h.nodes n₀ (KeyedTable.lookup_eq_some.1 hn).1
    · exact hold hmem
  | deleteNode id => exact hold (List.mem_filter.1 hmem).1
  | _ => exact hold hmem

theorem Write.referential_edges (h : s.Referential) (hw : s.Write t) : ∀ e ∈ t.edges.rows,
    (t.nodes.lookup e.sourceNodeId).isSome ∧ (t.nodes.lookup e.targetNodeId).isSome := by
  intro e hmem
  cases hw with
  | newProject t x g n r hnew =>
    rw [hnew.rest] at hmem
    exact ⟨KeyedTable.isSome_insert hnew.node (h.edges e hmem).1,
      KeyedTable.isSome_insert hnew.node (h.edges e hmem).2⟩
  | insertNode n u hu =>
    exact ⟨KeyedTable.isSome_insert hu (h.edges e hmem).1,
      KeyedTable.isSome_insert hu (h.edges e hmem).2⟩
  | replaceNode n₀ n' =>
    rw [KeyedTable.isSome_replace, KeyedTable.isSome_replace]
    exact h.edges e hmem
  | deleteNode id =>
    obtain ⟨hmem, hends⟩ := List.mem_filter.1 hmem
    simp only [Bool.and_eq_true, bne_iff_ne, ne_eq] at hends
    rw [KeyedTable.lookup_erase_ne hends.1, KeyedTable.lookup_erase_ne hends.2]
    exact h.edges e hmem
  | insertEdge e' u hu hends =>
    rcases (KeyedTable.mem_insert hu).1 hmem with hmem | rfl
    · exact h.edges e hmem
    · exact hends
  | replaceEdge e₀ e' he hends =>
    rcases KeyedTable.mem_replace.1 hmem with ⟨rfl, -⟩ | ⟨hmem, -⟩
    · rw [hends.1, hends.2]
      exact h.edges e₀ (KeyedTable.lookup_eq_some.1 he).1
    · exact h.edges e hmem
  | keepEdges r => exact h.edges e (List.mem_filter.1 hmem).1
  | _ => exact h.edges e hmem

theorem Write.referential (h : s.Referential) (hw : s.Write t) : t.Referential where
  workspaces := hw.referential_workspaces h
  goals := hw.referential_goals h
  ideas := hw.referential_ideas h
  insights := hw.referential_insights h
  tasks := hw.referential_tasks h
  rulesets := hw.referential_rulesets h
  docs := hw.referential_docs h
  workflows := hw.referential_workflows h
  nodes := hw.referential_nodes h
  edges := hw.referential_edges h

theorem referential_empty : empty.Referential := by
  constructor <;> exact fun x hx => absurd hx List.not_mem_nil

/-! ### Unique rows -/

def BothStrategic (g h : Goal) : Prop :=
  (g.kind = .strategic ∧ h.kind = .strategic) ∧ g.projectId = h.projectId

def SameDoc (d e : Doc) : Prop := d.projectId = e.projectId ∧ d.name = e.name

def SameEntity (m n : GraphNode) : Prop :=
  (m.kind = .entityRef ∧ n.kind = .entityRef) ∧ m.entityType = n.entityType ∧
    m.entityId = n.entityId

def SameEdge (e f : GraphEdge) : Prop :=
  e.sourceNodeId = f.sourceNodeId ∧ e.targetNodeId = f.targetNodeId ∧ e.kind = f.kind

/-- No two rows stand for one thing, and every row has the parts its kind has. -/
structure Unique (s : Store) : Prop where
  strategic : ∀ g ∈ s.goals.rows, ∀ h ∈ s.goals.rows, BothStrategic g h → g = h
  rulesetScope : ∀ r ∈ s.rulesets.rows, r.scope = .global ↔ r.projectId = none
  ruleset : ∀ q ∈ s.rulesets.rows, ∀ r ∈ s.rulesets.rows, q.projectId = r.projectId → q = r
  doc : ∀ d ∈ s.docs.rows, ∀ e ∈ s.docs.rows, SameDoc d e → d = e
  nodeKind : ∀ n ∈ s.nodes.rows,
    n.kind = .entityRef ↔ n.entityType.isSome = true ∧ n.entityId.isSome = true
  node : ∀ m ∈ s.nodes.rows, ∀ n ∈ s.nodes.rows, SameEntity m n → m = n
  noLoop : ∀ e ∈ s.edges.rows, e.sourceNodeId ≠ e.targetNodeId
  edge : ∀ e ∈ s.edges.rows, ∀ f ∈ s.edges.rows, SameEdge e f → e = f

theorem hasEntityRef_eq_false {ty : Option GraphEntityType} {id : Option String} :
    s.hasEntityRef ty id = false ↔
      ∀ n ∈ s.nodes.rows, n.kind = .entityRef → n.entityType = ty → n.entityId ≠ id := by
  simp [hasEntityRef]

theorem hasEdge_eq_false {id source target : String} {kind : GraphEdgeKind} :
    s.hasEdge id source target kind = false ↔ ∀ e ∈ s.edges.rows, e.id ≠ id →
      e.sourceNodeId = source → e.targetNodeId = target → e.kind ≠ kind := by
  simp [hasEdge]

theorem not_bothStrategic {g h : Goal} (hone : g.kind = .strategic →
    s.hasStrategicGoal g.projectId = false) (hh : h ∈ s.goals.rows) :
    ¬BothStrategic g h ∧ ¬BothStrategic h g :=
  ⟨fun hb => hasStrategicGoal_eq_false.1 (hone hb.1.1) h hh hb.1.2 hb.2.symm,
    fun hb => hasStrategicGoal_eq_false.1 (hone hb.1.2) h hh hb.1.1 hb.2⟩

theorem not_sameEntity {m n : GraphNode} (hone : n.kind = .entityRef →
    s.hasEntityRef n.entityType n.entityId = false) (hm : m ∈ s.nodes.rows) :
    ¬SameEntity n m ∧ ¬SameEntity m n :=
  ⟨fun hs => hasEntityRef_eq_false.1 (hone hs.1.1) m hm hs.1.2 hs.2.1.symm hs.2.2.symm,
    fun hs => hasEntityRef_eq_false.1 (hone hs.1.2) m hm hs.1.1 hs.2.1 hs.2.2⟩

theorem not_sameEdge {e f : GraphEdge}
    (hone : s.hasEdge e.id e.sourceNodeId e.targetNodeId e.kind = false) (hf : f ∈ s.edges.rows)
    (hid : f.id ≠ e.id) : ¬SameEdge e f ∧ ¬SameEdge f e :=
  ⟨fun hs => hasEdge_eq_false.1 hone f hf hid hs.1.symm hs.2.1.symm hs.2.2.symm,
    fun hs => hasEdge_eq_false.1 hone f hf hid hs.1 hs.2.1 hs.2.2⟩

theorem Write.unique_strategic (h : s.Unique) (hw : s.Write t) :
    ∀ g ∈ t.goals.rows, ∀ h ∈ t.goals.rows, BothStrategic g h → g = h := by
  cases hw with
  | newProject t x g n r hnew =>
    exact KeyedTable.only_insert hnew.goal h.strategic fun y hy =>
      not_bothStrategic (fun _ => hnew.goalOf.1 ▸ hnew.only) hy
  | insertGoal g u hu hp hroot hparent hone =>
    exact KeyedTable.only_insert hu h.strategic fun y hy => not_bothStrategic hone hy
  | replaceGoal g g' hg hp hparent hkind =>
    refine KeyedTable.only_replace hg h.strategic fun y _ _ => ?_
    simp only [BothStrategic, hp, hkind, imp_self, and_self]
  | moveGoal g g' q hg hp hparent hkind hadd hq =>
    refine KeyedTable.only_replace hg h.strategic fun y _ _ => ?_
    simp only [BothStrategic, hp, hkind, imp_self, and_self]
  | deleteGoals g id => exact KeyedTable.only_keep h.strategic
  | _ => exact h.strategic

theorem Write.unique_rulesets (h : s.Unique) (hw : s.Write t) :
    (∀ r ∈ t.rulesets.rows, r.scope = .global ↔ r.projectId = none) ∧
      ∀ q ∈ t.rulesets.rows, ∀ r ∈ t.rulesets.rows, q.projectId = r.projectId → q = r := by
  cases hw with
  | newProject t x g n r hnew =>
    refine ⟨fun q hq => ?_, KeyedTable.only_insert (R := fun q r => q.projectId = r.projectId)
      hnew.ruleset h.ruleset fun y hy => ?_⟩
    · rcases (KeyedTable.mem_insert hnew.ruleset).1 hq with hq | rfl
      · exact h.rulesetScope q hq
      · rw [hnew.rulesetOf.1, hnew.rulesetOf.2]
        exact iff_of_false nofun nofun
    · have hne := hnew.onlyRuleset y hy
      rw [hnew.rulesetOf.2]
      exact ⟨fun heq => hne heq.symm, hne⟩
  | replaceRuleset r r' hr hscope hp =>
    refine ⟨fun q hq => ?_, KeyedTable.only_replace (R := fun q r => q.projectId = r.projectId) hr
      h.ruleset fun y _ _ => ?_⟩
    · rcases KeyedTable.mem_replace.1 hq with ⟨rfl, -⟩ | ⟨hq, -⟩
      · rw [hscope, hp]
        exact h.rulesetScope r (KeyedTable.lookup_eq_some.1 hr).1
      · exact h.rulesetScope q hq
    · rw [hp]
      exact ⟨id, id⟩
  | insertGlobalRuleset r u hu hr hone =>
    refine ⟨fun q hq => ?_, KeyedTable.only_insert (R := fun q r => q.projectId = r.projectId) hu
      h.ruleset fun y hy => ?_⟩
    · rcases (KeyedTable.mem_insert hu).1 hq with hq | rfl
      · exact h.rulesetScope q hq
      · exact iff_of_true hr.1 hr.2
    · have hne : y.projectId ≠ none := fun hp => hone y hy ((h.rulesetScope y hy).2 hp)
      rw [hr.2]
      exact ⟨fun heq => hne heq.symm, hne⟩
  | _ => exact ⟨h.rulesetScope, h.ruleset⟩

theorem Write.unique_docs (h : s.Unique) (hw : s.Write t) :
    ∀ d ∈ t.docs.rows, ∀ e ∈ t.docs.rows, SameDoc d e → d = e := by
  cases hw with
  | newProject t x g n r hnew =>
    rw [hnew.rest]
    exact h.doc
  | insertDoc d u hu hp hname hone =>
    exact KeyedTable.only_insert hu h.doc fun y hy =>
      ⟨fun hs => hone y hy hs.1.symm hs.2.symm, fun hs => hone y hy hs.1 hs.2⟩
  | replaceDoc d d' hd hp hname =>
    refine KeyedTable.only_replace hd h.doc fun y _ _ => ?_
    simp only [SameDoc, hp, hname, imp_self, and_self]
  | keepDocs r => exact KeyedTable.only_keep h.doc
  | _ => exact h.doc

theorem Write.unique_nodes (h : s.Unique) (hw : s.Write t) :
    (∀ n ∈ t.nodes.rows,
      n.kind = .entityRef ↔ n.entityType.isSome = true ∧ n.entityId.isSome = true) ∧
      ∀ m ∈ t.nodes.rows, ∀ n ∈ t.nodes.rows, SameEntity m n → m = n := by
  cases hw with
  | newProject t x g n r hnew =>
    refine ⟨fun m hm => ?_, KeyedTable.only_insert hnew.node h.node fun y hy =>
      not_sameEntity (fun _ => hnew.onlyNode) hy⟩
    rcases (KeyedTable.mem_insert hnew.node).1 hm with hm | rfl
    · exact h.nodeKind m hm
    · obtain ⟨-, hkind, htype, hid, -⟩ := hnew.nodeOf
      rw [htype, hid]
      exact iff_of_true hkind ⟨rfl, rfl⟩
  | insertNode n u hu hp hpos hent hone =>
    refine ⟨fun m hm => ?_, KeyedTable.only_insert hu h.node fun y hy => not_sameEntity hone hy⟩
    rcases (KeyedTable.mem_insert hu).1 hm with hm | rfl
    · exact h.nodeKind m hm
    · rcases hent with ⟨hkind, htype, -⟩ | ⟨hkind, htype, i, hid, -⟩
      · rw [htype]
        exact iff_of_false hkind (fun hsome => Bool.noConfusion hsome.1)
      · rw [htype, hid]
        exact iff_of_true hkind ⟨rfl, rfl⟩
  | replaceNode n n' hn hp hent hpos =>
    refine ⟨fun m hm => ?_, KeyedTable.only_replace hn h.node fun y _ _ => ?_⟩
    · rcases KeyedTable.mem_replace.1 hm with ⟨rfl, -⟩ | ⟨hm, -⟩
      · rw [hent.1, hent.2.1, hent.2.2]
        exact h.nodeKind n (KeyedTable.lookup_eq_some.1 hn).1
      · exact h.nodeKind m hm
    · simp only [SameEntity, hent, imp_self, and_self]
  | deleteNode id =>
    exact ⟨fun m hm => h.nodeKind m (List.mem_filter.1 hm).1, KeyedTable.only_keep h.node⟩
  | _ => exact ⟨h.nodeKind, h.node⟩

theorem Write.unique_edges (h : s.Unique) (hw : s.Write t) :
    (∀ e ∈ t.edges.rows, e.sourceNodeId ≠ e.targetNodeId) ∧
      ∀ e ∈ t.edges.rows, ∀ f ∈ t.edges.rows, SameEdge e f → e = f := by
  cases hw with
  | newProject t x g n r hnew =>
    rw [hnew.rest]
    exact ⟨h.noLoop, h.edge⟩
  | deleteNode id =>
    exact ⟨fun e he => h.noLoop e (List.mem_filter.1 he).1, KeyedTable.only_keep h.edge⟩
  | insertEdge e u hu hends hne hone =>
    refine ⟨fun f hf => ?_, KeyedTable.only_insert hu h.edge fun y hy => not_sameEdge hone hy ?_⟩
    · rcases (KeyedTable.mem_insert hu).1 hf with hf | rfl
      · exact h.noLoop f hf
      · exact hne
    · intro hid
      have hlookup : s.edges.lookup y.id = some y := KeyedTable.mem_rows.1 hy
      rw [hid, (KeyedTable.insert_eq_some.1 hu).1] at hlookup
      cases hlookup
  | replaceEdge e e' he hends hone =>
    refine ⟨fun f hf => ?_, KeyedTable.only_replace he h.edge fun y hy hid => ?_⟩
    · rcases KeyedTable.mem_replace.1 hf with ⟨rfl, -⟩ | ⟨hf, -⟩
      · rw [hends.1, hends.2]
        exact h.noLoop e (KeyedTable.lookup_eq_some.1 he).1
      · exact h.noLoop f hf
    · obtain ⟨hnot, hnot'⟩ := not_sameEdge hone hy hid
      exact ⟨fun hs => absurd hs hnot, fun hs => absurd hs hnot'⟩
  | keepEdges r => exact ⟨fun e he => h.noLoop e (List.mem_filter.1 he).1, KeyedTable.only_keep h.edge⟩
  | _ => exact ⟨h.noLoop, h.edge⟩

theorem Write.unique (h : s.Unique) (hw : s.Write t) : t.Unique where
  strategic := hw.unique_strategic h
  rulesetScope := (hw.unique_rulesets h).1
  ruleset := (hw.unique_rulesets h).2
  doc := hw.unique_docs h
  nodeKind := (hw.unique_nodes h).1
  node := (hw.unique_nodes h).2
  noLoop := (hw.unique_edges h).1
  edge := (hw.unique_edges h).2

theorem unique_empty : empty.Unique := by
  constructor <;> exact fun x hx => absurd hx List.not_mem_nil

/-! ### Imports -/

theorem Unique.congr (h : s.Unique) (hgoals : t.goals.rows = s.goals.rows)
    (hrulesets : t.rulesets.rows = s.rulesets.rows) (hdocs : t.docs.rows = s.docs.rows)
    (hnodes : t.nodes.rows = s.nodes.rows) (hedges : t.edges.rows = s.edges.rows) : t.Unique where
  strategic := hgoals ▸ h.strategic
  rulesetScope := hrulesets ▸ h.rulesetScope
  ruleset := hrulesets ▸ h.ruleset
  doc := hdocs ▸ h.doc
  nodeKind := hnodes ▸ h.nodeKind
  node := hnodes ▸ h.node
  noLoop := hedges ▸ h.noLoop
  edge := hedges ▸ h.edge

theorem insertRulesetRaw_unique {r : RuleSet} (hr : s.insertRulesetRaw r = .ok t)
    (h : s.Unique) : t.Unique := by
  unfold insertRulesetRaw at hr
  split at hr
  · rename_i hscope
    split at hr
    · -- the row there is takes over the bundle's text and stays the row it is
      rename_i q hq
      obtain rfl := Except.ok.inj hr
      have hlookup : s.rulesets.lookup q.id = some q :=
        KeyedTable.mem_rows.1 (List.mem_of_find?_eq_some hq)
      have hw : s.Write _ := Write.replaceRuleset q { q with
        mdPath := r.mdPath, mdHash := r.mdHash, policy := r.policy, updatedAt := r.updatedAt }
        hlookup rfl rfl
      exact hw.unique h
    · rename_i hnone
      obtain ⟨u, hu, rfl⟩ := insertRow_eq_ok hr
      have hw : s.Write _ := Write.insertGlobalRuleset { r with projectId := none } u hu
        ⟨hscope, rfl⟩ fun q hq => by simpa using List.find?_eq_none.1 hnone q hq
      exact hw.unique h
  · rename_i hscope
    split_ifs at hr with hnone
    simp only [insertProjectRuleset, ite_error_eq_ok] at hr
    obtain ⟨hfree, hr⟩ := hr
    obtain ⟨u, hu, rfl⟩ := insertRow_eq_ok hr
    have hne : ∀ q ∈ s.rulesets.rows, q.projectId ≠ r.projectId := by simpa using hfree
    refine ⟨h.strategic, fun q hq => ?_, ?_, h.doc, h.nodeKind, h.node, h.noLoop, h.edge⟩
    · rcases (KeyedTable.mem_insert hu).1 hq with hq | rfl
      · exact h.rulesetScope q hq
      · rw [hscope]
        exact iff_of_false nofun hnone
    · exact KeyedTable.only_insert (R := fun q r => q.projectId = r.projectId) hu h.ruleset
        fun q hq => ⟨fun heq => hne q hq heq.symm, hne q hq⟩

theorem insertDocRaw_unique {d : Doc} (hd : s.insertDocRaw d = .ok t) (h : s.Unique) :
    t.Unique := by
  simp only [insertDocRaw, ite_error_eq_ok] at hd
  obtain ⟨hfree, hd⟩ := hd
  obtain ⟨u, hu, rfl⟩ := insertRow_eq_ok hd
  have hne : ∀ e ∈ s.docs.rows, e.projectId = d.projectId → e.name ≠ d.name := by
    simpa using (not_or.1 hfree).2
  exact ⟨h.strategic, h.rulesetScope, h.ruleset, KeyedTable.only_insert hu h.doc fun e he =>
    ⟨fun hs => hne e he hs.1.symm hs.2.symm, fun hs => hne e he hs.1 hs.2⟩, h.nodeKind, h.node,
    h.noLoop, h.edge⟩

theorem insertNode_unique {n : GraphNode} {taken : OrchdPersistError}
    (hn : s.insertNode n taken = .ok t) (h : s.Unique) : t.Unique := by
  obtain ⟨u, hu, rfl, hone⟩ := insertNode_eq_ok hn
  simp only [insertNode, ite_error_eq_ok] at hn
  refine ⟨h.strategic, h.rulesetScope, h.ruleset, h.doc, fun m hm => ?_,
    KeyedTable.only_insert hu h.node fun m hm => not_sameEntity hone hm, h.noLoop, h.edge⟩
  rcases (KeyedTable.mem_insert hu).1 hm with hm | rfl
  · exact h.nodeKind m hm
  · have hkind : (m.kind == .entityRef) = (m.entityType.isSome && m.entityId.isSome) := by
      simpa using hn.1
    rw [← Bool.and_eq_true, ← hkind, beq_iff_eq]

theorem insertEdge_unique {e : GraphEdge} {taken : OrchdPersistError}
    (he : s.insertEdge e taken = .ok t) (h : s.Unique) : t.Unique := by
  simp only [insertEdge, ite_error_eq_ok] at he
  obtain ⟨hne, hone, he⟩ := he
  split at he
  · rename_i u hu
    obtain rfl := Except.ok.inj he
    have hid : ∀ f ∈ s.edges.rows, f.id ≠ e.id := by
      intro f hf hid
      have hlookup : s.edges.lookup f.id = some f := KeyedTable.mem_rows.1 hf
      rw [hid, (KeyedTable.insert_eq_some.1 hu).1] at hlookup
      cases hlookup
    refine ⟨h.strategic, h.rulesetScope, h.ruleset, h.doc, h.nodeKind, h.node, fun f hf => ?_,
      KeyedTable.only_insert hu h.edge fun f hf => not_sameEdge (by simpa using hone) hf (hid f hf)⟩
    rcases (KeyedTable.mem_insert hu).1 hf with hf | rfl
    · exact h.noLoop f hf
    · exact hne
  · cases he

theorem rawKept_unique : Orchd.RawKept Unique where
  project hp h := by
    simp only [insertProjectRaw, insertProject, bind_eq_ok] at hp
    obtain ⟨v, hv, hp⟩ := hp
    split at hv
    · obtain rfl := Except.ok.inj hv
      obtain ⟨u, rfl, -⟩ := insertWorkspaces_eq_ok hp
      exact h.congr rfl rfl rfl rfl rfl
    · cases hv
  goal hg h := by
    simp only [insertGoalRaw, insertGoal, ite_error_eq_ok] at hg
    obtain ⟨u, hu, rfl⟩ := insertRow_eq_ok hg.2
    refine ⟨KeyedTable.only_insert hu h.strategic fun y hy => not_bothStrategic (fun hk => ?_) hy,
      h.rulesetScope, h.ruleset, h.doc, h.nodeKind, h.node, h.noLoop, h.edge⟩
    simpa [hk] using hg.1
  idea hi h := by
    obtain ⟨u, -, rfl⟩ := insertRow_eq_ok hi
    exact h.congr rfl rfl rfl rfl rfl
  insight hi h := by
    obtain ⟨u, -, rfl⟩ := insertRow_eq_ok hi
    exact h.congr rfl rfl rfl rfl rfl
  task hx h := by
    obtain ⟨u, -, rfl⟩ := insertRow_eq_ok hx
    exact h.congr rfl rfl rfl rfl rfl
  ruleset hr h := insertRulesetRaw_unique hr h
  doc hd h := insertDocRaw_unique hd h
  node hn h := insertNode_unique hn h
  edge he h := insertEdge_unique he h

end Store

/-! ### Runs -/

namespace Orchd

variable {host : Host} {serde : BundleJson}

/-- What every write keeps, and an import, the requests keep. -/
theorem throughout_of_kept {P : Store → Prop} (hempty : P .empty)
    (hwrite : ∀ {s t}, P s → s.Write t → P t)
    (himport : ∀ {s e draw st}, importRows host draw s e = .ok st → P s → P st.1)
    (files : Files) (rs : List StoreRequest) :
    Runs.Throughout (stepStore host serde) (fun o : Orchd => P o.db) ⟨.empty, files⟩ rs := by
  refine Runs.Along.throughout (C := fun _ _ => True) (I := fun o : Orchd => P o.db) ?_
    (fun _ h => h) (Runs.along_of_forall _ fun _ _ => trivial) hempty
  intro o r o' h _ hr
  obtain rfl := Option.some.inj hr
  rcases hs : serve host serde o r with err | t
  · exact h
  · cases r with
    | domain r =>
      have hkept : ∀ {u : Store}, o.db.Writes u → P u := by
        intro u hu
        induction hu with
        | refl => exact h
        | tail _ hw ih => exact hwrite ih hw
      exact hkept (handle_writes hs)
    | importBundle json draw =>
      simp only [serve, map_eq_ok] at hs
      obtain ⟨r, hr, rfl⟩ := hs
      obtain ⟨e, st, -, hst, hdb, -⟩ := importBundle_eq_ok hr
      have hkept := himport hst h
      rw [Except.toOption, Option.getD_some, hdb]
      exact hkept

/-- Along every run, what a row refers to is there. -/
theorem references_throughout (host : Host) (serde : BundleJson) (files : Files)
    (rs : List StoreRequest) : Runs.Throughout (stepStore host serde)
      (fun o : Orchd => o.db.foreignKeysHold = true) ⟨.empty, files⟩ rs :=
  throughout_of_kept (P := fun s => s.foreignKeysHold = true)
    (Store.foreignKeysHold_iff.2 Store.referential_empty)
    (fun h hw => Store.foreignKeysHold_iff.2 (hw.referential (Store.foreignKeysHold_iff.1 h)))
    (fun hst _ => (importRows_adds hst).2.2) files rs

/-- Along every run, each project has one strategic goal and one ruleset at most, and there are no two
docs of one name, nodes of one entity or edges of one kind between two nodes. -/
theorem unique_throughout (host : Host) (serde : BundleJson) (files : Files)
    (rs : List StoreRequest) : Runs.Throughout (stepStore host serde)
      (fun o : Orchd => o.db.Unique) ⟨.empty, files⟩ rs :=
  throughout_of_kept Store.unique_empty (fun h hw => hw.unique h)
    (fun hst h => importRows_keeps Store.rawKept_unique hst h) files rs

end Orchd

end BuilderPro
