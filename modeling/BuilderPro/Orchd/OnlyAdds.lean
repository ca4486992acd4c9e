import BuilderPro.Lib.Overwrites
import BuilderPro.Orchd.Frozen
import BuilderPro.Orchd.Imported

/-!
# What an import leaves as it is

The rows of a bundle say themselves which project they are of, and where their files are.  An import
leaves what was there alone exactly when the bundle's rows keep to the bundle's projects and its
writes to files of their own.
-/

namespace BuilderPro

open Results

/-! ### Writes -/

/-- What a write leaves at a path: the content at its own, nothing where it was staged. -/
def PendingRulesetWrite.leaves (w : PendingRulesetWrite) (f : FilePath) : Option OnDisk :=
  if f = w.path then some (.file w.content)
  else if f = w.path.tmpPathFor then some .missing
  else none

theorem writeAtomic_eq_ok {host : Host} {fs : Files} {w : PendingRulesetWrite} {r : Files × String}
    (h : fs.writeAtomic host w.path w.content = .ok r) (f : FilePath) :
    r.1 f = (w.leaves f).getD (fs f) := by
  simp only [Files.writeAtomic, bind_eq_ok, pure_eq_ok] at h
  obtain ⟨-, -, rfl⟩ := h
  simp only [Files.put, PendingRulesetWrite.leaves, if_true]
  split_ifs <;> rfl

/-- When no write fails, they have all been made. -/
theorem writePending_eq {host : Host} {fs : Files} {failure : Option String}
    {ws : List PendingRulesetWrite} (h : (Orchd.writePending host fs failure ws).2 = none) :
    failure = none
      ∧ (Orchd.writePending host fs failure ws).1
        = Overwrites.apply PendingRulesetWrite.leaves fs ws := by
  induction ws generalizing fs failure with
  | nil => exact ⟨h, rfl⟩
  | cons w ws ih =>
    rw [Orchd.writePending] at h ⊢
    split at h
    · rename_i fs' hash hr
      obtain ⟨hnone, hfs⟩ := ih h
      have hfs' : fs' = fun f => (w.leaves f).getD (fs f) := funext (writeAtomic_eq_ok hr)
      exact ⟨hnone, hfs.trans
        (congrArg (fun g : FilePath → OnDisk => Overwrites.apply _ g ws) hfs')⟩
    · obtain ⟨hnone, -⟩ := ih h
      cases failure <;> simp at hnone

/-! ### The claim of an import -/

namespace AllImportEnvelope

variable (e : AllImportEnvelope)

def projectIds : List String := e.projects.map fun b => b.project.id

def docBundles : List DocBundle := e.projects.flatMap ProjectBundle.docs

def rulesetBundles : List RuleSetBundle :=
  e.projects.flatMap (fun b => b.ruleset.toList) ++ e.globalRuleset.toList

end AllImportEnvelope

namespace Store

/-- The rows of a project; its ruleset is in the project scope. -/
def ownRows (s : Store) (p : String) : ProjectRows :=
  { s.projectRows p with rulesets := (s.rowsOf RuleSet p).filter fun r => r.scope = .project }

/-- The files the rows refer to, but for the global ruleset's. -/
def fileRefs (s : Store) : List FilePath :=
  (s.rulesets.rows.filter fun r => r.scope = .project).map RuleSet.mdPath
    ++ s.docs.rows.map Doc.mdPath ++ s.workflows.rows.map WorkflowRow.jsonPath

/-- The rows of a family that a step has put in are of some projects. -/
def NewIn (ρ : Type) [ProjectChild ρ] (s t : Store) (ps : List String) : Prop :=
  ∀ x ∈ (ProjectChild.table t).rows, x ∉ (ProjectChild.table s).rows →
    ∀ p, ProjectChild.projectId (ρ := ρ) x = some p → p ∈ ps

/-- All the rows a step has put in are of some projects, and its edges between their nodes. -/
structure NewRowsIn (s t : Store) (ps : List String) : Prop where
  goals : NewIn Goal s t ps
  ideas : NewIn Idea s t ps
  insights : NewIn Insight s t ps
  tasks : NewIn DomainTask s t ps
  rulesets : ∀ r ∈ t.rulesets.rows, r ∉ s.rulesets.rows → r.scope = .project →
    ∀ p, r.projectId = some p → p ∈ ps
  docs : NewIn Doc s t ps
  nodes : NewIn GraphNode s t ps
  edges : ∀ x ∈ t.edges.rows, x ∉ s.edges.rows → ∀ n ∈ t.nodes.rows,
    n.id = x.sourceNodeId ∨ n.id = x.targetNodeId → n.projectId ∈ ps

end Store

/-- An import that only adds. -/
structure OnlyAdds (host : Host) (o o' : Orchd) (e : AllImportEnvelope) : Prop where
  rows : ∀ p, o.db.HasProject p →
    o'.db.loadProject p = o.db.loadProject p ∧ o'.db.ownRows p = o.db.ownRows p
  files : ∀ f ∈ o.db.fileRefs, o'.files f = o.files f
  children : o.db.NewRowsIn o'.db e.projectIds
  docs : ∀ b ∈ e.docBundles, importedDoc host b ∈ o'.db.docs.rows
    ∧ ∀ c, b.mdContent = some c → o'.files (importedDoc host b).mdPath = .file c
  rulesets : ∀ b ∈ e.rulesetBundles, ∀ c, b.mdContent = some c →
    o'.files (importedRuleset host b).mdPath = .file c

/-- The rows of a bundle are of its projects, and its edges do not reach nodes of others. -/
structure AllImportEnvelope.RowsIn (host : Host) (s : Store) (e : AllImportEnvelope) : Prop where
  goals : ∀ g ∈ (e.rows host).goals, g.projectId ∈ e.projectIds
  ideas : ∀ i ∈ (e.rows host).ideas, ∀ p, i.projectId = some p → p ∈ e.projectIds
  insights : ∀ i ∈ (e.rows host).insights, ∀ p, i.projectId = some p → p ∈ e.projectIds
  tasks : ∀ x ∈ (e.rows host).tasks, x.projectId ∈ e.projectIds
  rulesets : ∀ r ∈ (e.rows host).rulesets, ∀ p, r.projectId = some p → p ∈ e.projectIds
  docs : ∀ d ∈ (e.rows host).docs, d.projectId ∈ e.projectIds
  nodes : ∀ n ∈ (e.rows host).nodes, n.projectId ∈ e.projectIds
  edges : ∀ x ∈ (e.rows host).edges, ∀ n ∈ s.nodes.rows,
    n.id = x.sourceNodeId ∨ n.id = x.targetNodeId → n.projectId ∈ e.projectIds

/-- A bundle that keeps to itself. -/
structure AllImportEnvelope.KeepsToItself (host : Host) (o : Orchd) (e : AllImportEnvelope) :
    Prop where
  rows : e.RowsIn host o.db
  files : ∀ f ∈ o.db.fileRefs, ∀ d,
    Overwrites.last PendingRulesetWrite.leaves f (e.writes host) = some d → d = o.files f
  writes : ∀ w ∈ e.writes host,
    Overwrites.last PendingRulesetWrite.leaves w.path (e.writes host) = some (.file w.content)

/-! ### What the rows of a bundle come to -/

namespace Store

variable {s t : Store} {ps : List String} {p : String}

section Families

variable {ρ : Type} [ProjectChild ρ] {xs : List ρ}

theorem newIn_iff (h : (ProjectChild.table t).rows = (ProjectChild.table s).rows ++ xs) :
    NewIn ρ s t ps ↔ ∀ x ∈ xs, ∀ p, ProjectChild.projectId x = some p → p ∈ ps := by
  have hnodup := (ProjectChild.table t : KeyedTable (ProjectChild.id : ρ → String)).nodup
  rw [h, List.map_append, List.nodup_append] at hnodup
  have hnew : ∀ x ∈ xs, x ∉ (ProjectChild.table s).rows := fun x hx hs =>
    hnodup.2.2 _ (List.mem_map_of_mem hs) _ (List.mem_map_of_mem hx) rfl
  simp only [NewIn, h, List.mem_append]
  constructor
  · exact fun hnewIn x hx => hnewIn x (.inr hx) (hnew x hx)
  · rintro hxs x (hx | hx) hold
    · exact (hold hx).elim
    · exact hxs x hx

theorem rowsOf_append (h : (ProjectChild.table t).rows = (ProjectChild.table s).rows ++ xs)
    (hxs : ∀ x ∈ xs, ∀ q, ProjectChild.projectId x = some q → q ∈ ps) (hp : p ∉ ps) :
    t.rowsOf ρ p = s.rowsOf ρ p := by
  have hnone : xs.filter (fun x => ProjectChild.projectId x = some p) = [] := by
    rw [List.filter_eq_nil_iff]
    intro x hx hpx
    exact hp (hxs x hx p (by simpa using hpx))
  rw [rowsOf, h, List.filter_append, hnone, List.append_nil]
  rfl

end Families

namespace Adds

variable {d : Rows} (h : s.Adds t d)
include h

/-- Rows that go in do not bring in one that is there. -/
theorem not_mem_rulesets {r : RuleSet} (hr : r ∈ d.rulesets) : r ∉ s.rulesets.rows := by
  intro hs
  have hnodup : ((t.rulesets.rows.filter fun r => r.scope = .project).map RuleSet.id).Nodup :=
    t.rulesets.nodup.sublist (List.filter_sublist.map _)
  rw [h.rulesets, List.map_append, List.nodup_append] at hnodup
  have hscope : r.scope = .project := by
    have : r ∈ t.rulesets.rows.filter (fun r => r.scope = .project) := by
      rw [h.rulesets]
      exact List.mem_append_right _ hr
    simpa using (List.mem_filter.1 this).2
  refine hnodup.2.2 r.id (List.mem_map_of_mem (List.mem_filter.2 ⟨hs, ?_⟩)) r.id
    (List.mem_map_of_mem hr) rfl
  simpa using hscope

theorem not_mem_edges {x : GraphEdge} (hx : x ∈ d.edges) : x ∉ s.edges.rows := by
  intro hs
  have hnodup := t.edges.nodup
  rw [h.edges, List.map_append, List.nodup_append] at hnodup
  exact hnodup.2.2 x.id (List.mem_map_of_mem hs) x.id (List.mem_map_of_mem hx) rfl

/-- A project that goes in was not there. -/
theorem not_hasProject {x : ProjectRow} (hx : x ∈ d.projects) : ¬ s.HasProject x.id := by
  rw [HasProject, ← KeyedTable.exists_row]
  rintro ⟨y, hy, hxy⟩
  have hnodup := t.projects.nodup
  rw [h.projects, List.map_append, List.nodup_append] at hnodup
  exact hnodup.2.2 y.id (List.mem_map_of_mem hy) x.id (List.mem_map_of_mem hx) hxy

theorem loadProject (hp : s.HasProject p)
    (hlinks : ∀ w ∈ d.workspaces, w.projectId ≠ p) : t.loadProject p = s.loadProject p := by
  have hlookup : t.projects.lookup p = s.projects.lookup p := by
    obtain ⟨x, hx⟩ := Option.isSome_iff_exists.1 hp
    rw [KeyedTable.lookup, h.projects, List.find?_append]
    have hs : s.projects.rows.find? (fun y => decide (y.id = p)) = some x := hx
    rw [hs]
    exact hx.symm
  have hws : (t.workspaces.rows.filter fun w => w.projectId = p)
      = s.workspaces.rows.filter fun w => w.projectId = p := by
    have hnone : d.workspaces.filter (fun w => w.projectId = p) = [] := by
      rw [List.filter_eq_nil_iff]
      intro w hw
      simpa using hlinks w hw
    rw [h.workspaces, List.filter_append, hnone, List.append_nil]
  rw [Store.loadProject, Store.loadProject, hlookup, hws]

end Adds

end Store

/-! ### Imports -/

namespace Orchd

open Store

variable {host : Host} {draw : SeedDraw} {serde : BundleJson} {o : Orchd} {e : AllImportEnvelope}

/-- The seeded nodes are of the bundle's goals' and insights' projects. -/
theorem seed_projectId (host : Host) {n : GraphNode}
    (hn : n ∈ e.seedSources.map (SeedSource.node draw)) :
    (∃ g ∈ (e.rows host).goals, g.projectId = n.projectId)
      ∨ ∃ i ∈ (e.rows host).insights, i.projectId = some n.projectId := by
  obtain ⟨x, hx, rfl⟩ := List.mem_map.1 hn
  obtain ⟨b, hb, hx⟩ := List.mem_flatMap.1 hx
  rcases List.mem_append.1 hx with hx | hx
  · obtain ⟨g, hg, hx⟩ := List.mem_flatMap.1 hx
    refine .inl ⟨g, List.mem_flatMap.2 ⟨b, hb, hg⟩, ?_⟩
    unfold Goal.seedSource at hx
    split_ifs at hx
    · obtain rfl := List.mem_singleton.1 hx
      rfl
    · cases hx
  · obtain ⟨i, hi, hx⟩ := List.mem_flatMap.1 hx
    refine .inr ⟨i, List.mem_append_left _ (List.mem_flatMap.2 ⟨b, hb, hi⟩), ?_⟩
    unfold Insight.seedSource at hx
    split at hx
    · rename_i pid _ hp
      obtain rfl := List.mem_singleton.1 hx
      exact hp
    · cases hx

theorem mem_projectIds (host : Host) {p : String} :
    p ∈ e.projectIds ↔ ∃ x ∈ (e.rows host).projects, x.id = p := by
  simp [AllImportEnvelope.projectIds, AllImportEnvelope.rows, ProjectBundle.rows]

theorem workspaceRows_projectId {p : String} {ord : ℤ} {ws : List String} {w : ProjectWorkspace}
    (hw : w ∈ workspaceRows p ord ws) : w.projectId = p := by
  induction ws generalizing ord with
  | nil => cases hw
  | cons v ws ih =>
    rcases List.mem_cons.1 hw with rfl | hw
    · rfl
    · exact ih hw

section Adds

variable {s t : Store} {nodes seeds : List GraphNode}
  (hadds : s.Adds t { e.rows host with nodes := nodes })
  (hperm : nodes.Perm ((e.rows host).nodes ++ seeds))
include hperm

theorem nodes_projectId (hseeds : seeds.Sublist (e.seedSources.map (SeedSource.node draw)))
    (h : e.RowsIn host s) : ∀ n ∈ nodes, n.projectId ∈ e.projectIds := by
  intro n hn
  rcases List.mem_append.1 (hperm.mem_iff.1 hn) with hn | hn
  · exact h.nodes n hn
  · rcases seed_projectId host (hseeds.subset hn) with ⟨g, hg, hp⟩ | ⟨i, hi, hp⟩
    · exact hp ▸ h.goals g hg
    · exact h.insights i hi _ hp

include hadds

/-- Rows in the bundle's projects, once the seeded nodes are where the goals and insights are. -/
theorem newRowsIn_of_rowsIn (hseeds : seeds.Sublist (e.seedSources.map (SeedSource.node draw)))
    (h : e.RowsIn host s) : s.NewRowsIn t e.projectIds := by
  have hnodes := nodes_projectId hperm hseeds h
  exact {
    goals := (newIn_iff (ρ := Goal) hadds.goals).2 fun g hg p hp =>
      Option.some.inj hp ▸ h.goals g hg
    ideas := (newIn_iff (ρ := Idea) hadds.ideas).2 h.ideas
    insights := (newIn_iff (ρ := Insight) hadds.insights).2 h.insights
    tasks := (newIn_iff (ρ := DomainTask) hadds.tasks).2 fun x hx p hp =>
      Option.some.inj hp ▸ h.tasks x hx
    rulesets := by
      intro r hr hnew hscope
      have hmem : r ∈ t.rulesets.rows.filter fun r => r.scope = .project :=
        List.mem_filter.2 ⟨hr, by simpa using hscope⟩
      rw [hadds.rulesets, List.mem_append] at hmem
      rcases hmem with hold | hmem
      · exact (hnew (List.mem_of_mem_filter hold)).elim
      · exact h.rulesets r hmem
    docs := (newIn_iff (ρ := Doc) hadds.docs).2 fun d hd p hp =>
      Option.some.inj hp ▸ h.docs d hd
    nodes := (newIn_iff (ρ := GraphNode) hadds.nodes).2 fun n hn p hp =>
      Option.some.inj hp ▸ hnodes n hn
    edges := by
      intro x hx hnew n hn hends
      have hx : x ∈ (e.rows host).edges := by
        rw [hadds.edges, List.mem_append] at hx
        exact hx.resolve_left hnew
      rw [hadds.nodes, List.mem_append] at hn
      rcases hn with hn | hn
      · exact h.edges x hx n hn hends
      · exact hnodes n hn }

theorem rowsIn_of_newRowsIn (h : s.NewRowsIn t e.projectIds) : e.RowsIn host s where
  goals g hg := (newIn_iff (ρ := Goal) hadds.goals).1 h.goals g hg _ rfl
  ideas := (newIn_iff (ρ := Idea) hadds.ideas).1 h.ideas
  insights := (newIn_iff (ρ := Insight) hadds.insights).1 h.insights
  tasks x hx := (newIn_iff (ρ := DomainTask) hadds.tasks).1 h.tasks x hx _ rfl
  rulesets := by
    intro r hr
    have hmem : r ∈ t.rulesets.rows.filter fun r => r.scope = .project := by
      rw [hadds.rulesets]
      exact List.mem_append_right _ hr
    obtain ⟨hmem, hscope⟩ := List.mem_filter.1 hmem
    exact h.rulesets r hmem (hadds.not_mem_rulesets hr) (by simpa using hscope)
  docs d hd := (newIn_iff (ρ := Doc) hadds.docs).1 h.docs d hd _ rfl
  nodes n hn := (newIn_iff (ρ := GraphNode) hadds.nodes).1 h.nodes n
    (hperm.mem_iff.2 (List.mem_append_left _ hn)) _ rfl
  edges x hx n hn := by
    refine h.edges x ?_ (hadds.not_mem_edges hx) n ?_
    · rw [hadds.edges]
      exact List.mem_append_right _ hx
    · rw [hadds.nodes]
      exact List.mem_append_left _ hn

/-- A project that was there has the rows it had. -/
theorem ownRows_kept (hseeds : seeds.Sublist (e.seedSources.map (SeedSource.node draw)))
    (h : e.RowsIn host s) {p : String} (hp : s.HasProject p) :
    t.loadProject p = s.loadProject p ∧ t.ownRows p = s.ownRows p := by
  have hout : p ∉ e.projectIds := by
    intro hin
    obtain ⟨x, hx, rfl⟩ := (mem_projectIds host).1 hin
    exact hadds.not_hasProject hx hp
  have hnodes : t.rowsOf GraphNode p = s.rowsOf GraphNode p := by
    refine rowsOf_append hadds.nodes ?_ hout
    intro n hn q hq
    obtain rfl := Option.some.inj hq
    exact nodes_projectId hperm hseeds h n hn
  have hedges : t.edgesOf p = s.edgesOf p := by
    have htouches : t.touches p = s.touches p := by
      funext x
      simp only [touches, isNodeOf, hnodes]
    have hnone : (e.rows host).edges.filter (s.touches p) = [] := by
      rw [List.filter_eq_nil_iff]
      intro x hx htouch
      simp only [touches, isNodeOf, rowsOf, Bool.or_eq_true, List.any_eq_true, List.mem_filter,
        beq_iff_eq, decide_eq_true_eq] at htouch
      rcases htouch with ⟨n, ⟨hn, hpn⟩, hend⟩ | ⟨n, ⟨hn, hpn⟩, hend⟩
      · exact hout (Option.some.inj hpn ▸ h.edges x hx n hn (.inl hend))
      · exact hout (Option.some.inj hpn ▸ h.edges x hx n hn (.inr hend))
    rw [edgesOf, htouches, hadds.edges, List.filter_append, hnone, List.append_nil]
    rfl
  have hrulesets : (t.rowsOf RuleSet p).filter (fun r => r.scope = .project)
      = (s.rowsOf RuleSet p).filter fun r => r.scope = .project := by
    have hnone : (e.rows host).rulesets.filter (fun r => r.projectId = some p) = [] := by
      rw [List.filter_eq_nil_iff]
      intro r hr hpr
      exact hout (h.rulesets r hr p (by simpa using hpr))
    have hcomm : ∀ u : Store, (u.rowsOf RuleSet p).filter (fun r => r.scope = .project)
        = (u.rulesets.rows.filter fun r => r.scope = .project).filter
          fun r => r.projectId = some p := by
      intro u
      exact List.filter_comm _ _ _
    rw [hcomm, hcomm, hadds.rulesets, List.filter_append, hnone, List.append_nil]
  constructor
  · refine hadds.loadProject hp ?_
    intro w hw hwp
    obtain ⟨b, hb, hw⟩ := List.mem_flatMap.1 hw
    refine hout (hwp ▸ workspaceRows_projectId hw ▸ ?_)
    exact List.mem_map_of_mem hb
  · rw [ownRows, ownRows, ProjectRows.mk.injEq]
    exact ⟨
      rowsOf_append hadds.goals (fun g hg q hq => Option.some.inj hq ▸ h.goals g hg) hout,
      rowsOf_append hadds.ideas h.ideas hout,
      rowsOf_append hadds.insights h.insights hout,
      rowsOf_append hadds.tasks (fun x hx q hq => Option.some.inj hq ▸ h.tasks x hx) hout,
      hrulesets,
      rowsOf_append hadds.docs (fun d hd q hq => Option.some.inj hq ▸ h.docs d hd) hout,
      congrArg (fun u : KeyedTable WorkflowRow.id => u.rows.filter _) hadds.workflows,
      hnodes, hedges⟩

end Adds

/-! ### Files -/

/-- The writes are of the imported rows that come with a text. -/
theorem mem_writes {w : PendingRulesetWrite} :
    w ∈ e.writes host ↔
      (∃ b ∈ e.docBundles, b.mdContent = some w.content ∧ (importedDoc host b).mdPath = w.path)
        ∨ ∃ b ∈ e.rulesetBundles,
          b.mdContent = some w.content ∧ (importedRuleset host b).mdPath = w.path := by
  have hone : ∀ (path : FilePath) (c : Option String),
      w ∈ writeOf path c ↔ c = some w.content ∧ path = w.path := by
    rintro path (_ | c)
    · simp [writeOf]
    · rcases w with ⟨wpath, wcontent⟩
      simp [writeOf, eq_comm, and_comm]
  simp only [AllImportEnvelope.writes, ProjectBundle.writes, AllImportEnvelope.docBundles,
    AllImportEnvelope.rulesetBundles, List.mem_append, List.mem_flatMap, docWrites, rulesetWrites,
    hone]
  grind

theorem leaves_path (w : PendingRulesetWrite) : w.leaves w.path ≠ none := by
  simp [PendingRulesetWrite.leaves]

/-- The files of the imported rows have the rows' texts exactly when no later write is in the way. -/
theorem contents_iff (host : Host) (e : AllImportEnvelope) (fs : Files) :
    ((∀ b ∈ e.docBundles, ∀ c, b.mdContent = some c →
        Overwrites.apply PendingRulesetWrite.leaves fs (e.writes host) (importedDoc host b).mdPath
          = .file c)
      ∧ ∀ b ∈ e.rulesetBundles, ∀ c, b.mdContent = some c →
        Overwrites.apply PendingRulesetWrite.leaves fs (e.writes host)
          (importedRuleset host b).mdPath = .file c)
      ↔ ∀ w ∈ e.writes host,
        Overwrites.last PendingRulesetWrite.leaves w.path (e.writes host)
          = some (.file w.content) := by
  constructor
  · rintro ⟨hdocs, hrulesets⟩ w hw
    rw [← Overwrites.apply_eq_iff (f := fs) hw (leaves_path w)]
    rcases mem_writes.1 hw with ⟨b, hb, hc, hpath⟩ | ⟨b, hb, hc, hpath⟩
    · rw [← hpath]
      exact hdocs b hb _ hc
    · rw [← hpath]
      exact hrulesets b hb _ hc
  · intro h
    constructor
    · intro b hb c hc
      have hw : (⟨(importedDoc host b).mdPath, c⟩ : PendingRulesetWrite) ∈ e.writes host :=
        mem_writes.2 (.inl ⟨b, hb, hc, rfl⟩)
      exact (Overwrites.apply_eq_iff (f := fs) hw (leaves_path _)).2 (h _ hw)
    · intro b hb c hc
      have hw : (⟨(importedRuleset host b).mdPath, c⟩ : PendingRulesetWrite) ∈ e.writes host :=
        mem_writes.2 (.inr ⟨b, hb, hc, rfl⟩)
      exact (Overwrites.apply_eq_iff (f := fs) hw (leaves_path _)).2 (h _ hw)

/-- An import that goes through only adds exactly when its bundle keeps to itself. -/
theorem import_only_adds_iff (host : Host) (draw : SeedDraw) (serde : BundleJson) (o : Orchd)
    (json : String) (e : AllImportEnvelope) (r : Orchd × ImportOutcome)
    (hparse : parseBundle serde json = .ok e)
    (himport : importBundle host draw serde o json = .ok r)
    (hfiles : r.2.deferredFileError = none) :
    OnlyAdds host o r.1 e ↔ e.KeepsToItself host o := by
  obtain ⟨e', st, hparse', hrows, hdb, hout⟩ := importBundle_eq_ok himport
  obtain rfl := Except.ok.inj (hparse.symm.trans hparse')
  obtain ⟨⟨nodes, seeds, hadds, hperm, hseeds⟩, hws, -⟩ := importRows_adds hrows
  rw [← show r.1.db = st.1 from congrArg Orchd.db hdb] at hadds
  have hleft : ∀ f, r.1.files f
      = Overwrites.apply PendingRulesetWrite.leaves o.files (e.writes host) f := by
    rw [hout] at hfiles
    rw [congrArg Orchd.files hdb, (writePending_eq hfiles).2, hws]
    exact fun f => rfl
  have hcontents := contents_iff host e o.files
  constructor
  · intro h
    refine ⟨rowsIn_of_newRowsIn hadds hperm h.children, ?_, ?_⟩
    · intro f hf
      exact Overwrites.apply_eq_self_iff.1 ((hleft f).symm.trans (h.files f hf))
    · refine hcontents.1 ⟨?_, ?_⟩
      · intro b hb c hc
        exact (hleft _).symm.trans ((h.docs b hb).2 c hc)
      · intro b hb c hc
        exact (hleft _).symm.trans (h.rulesets b hb c hc)
  · intro h
    obtain ⟨hdocs, hrulesets⟩ := hcontents.2 h.writes
    exact {
      rows := fun p hp => ownRows_kept hadds hperm hseeds h.rows hp
      files := fun f hf => (hleft f).trans (Overwrites.apply_eq_self_iff.2 (h.files f hf))
      children := newRowsIn_of_rowsIn hadds hperm hseeds h.rows
      docs := by
        intro b hb
        refine ⟨?_, fun c hc => (hleft _).trans (hdocs b hb c hc)⟩
        rw [hadds.docs]
        obtain ⟨x, hx, hb⟩ := List.mem_flatMap.1 hb
        exact List.mem_append_right _ (List.mem_flatMap.2 ⟨x, hx, List.mem_map_of_mem hb⟩)
      rulesets := fun b hb c hc => (hleft _).trans (hrulesets b hb c hc) }

/-- A bundle with a task of a project it does not bring. -/
def strayEnvelope : AllImportEnvelope :=
  ⟨[⟨⟨⟨"q", "", "", .active, 0, 0⟩, ["v"]⟩, [], [], [],
    [⟨"t", "p", none, "", "", .backlog, .normal, .plan, none, [], .finite 0, none, "", 0, 0⟩],
    none, [], [], []⟩], none, [], []⟩

def strayJson : BundleJson where
  fromStr _ := .ok ⟨some 1, "Some(Number(1))", .projects (.ok strayEnvelope)⟩
  toString _ := ""

/-- The store of one project. -/
def single : Orchd :=
  (fresh.step plainHost (.createProject "" "" ["w"] ⟨"p", "g", "n", "r"⟩ 0)).getD fresh

theorem stray_task_imported :
    ∃ r, importBundle plainHost (fun _ _ => ("", 0)) strayJson single "" = .ok r
      ∧ r.2.deferredFileError = none
      ∧ parseBundle strayJson "" = .ok strayEnvelope
      ∧ ¬ OnlyAdds plainHost single r.1 strayEnvelope := by
  refine ⟨_, rfl, rfl, rfl, fun h => ?_⟩
  obtain ⟨-, hrows⟩ := h.rows "p" (by decide +kernel)
  revert hrows
  decide +kernel

theorem import_only_adds_iff_stray :
    ∃ r, importBundle plainHost (fun _ _ => ("", 0)) strayJson single "" = .ok r
      ∧ (OnlyAdds plainHost single r.1 strayEnvelope
        ↔ strayEnvelope.KeepsToItself plainHost single) :=
  ⟨_, rfl, import_only_adds_iff plainHost (fun _ _ => ("", 0)) strayJson single "" strayEnvelope _
    rfl rfl rfl⟩

end Orchd

end BuilderPro
