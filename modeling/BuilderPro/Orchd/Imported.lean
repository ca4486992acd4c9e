import BuilderPro.Lib.Results
import BuilderPro.Orchd.Import

/-!
# What an import adds

An import that goes through has put the bundle's rows behind the store's, with the nodes it has
seeded, and changed no row but the global ruleset's (`importRows_adds`).
-/

namespace BuilderPro

open Results

/-- The rows of the tables a bundle adds to; of the rulesets, those of projects. -/
@[ext] structure Rows where
  projects : List ProjectRow
  workspaces : List ProjectWorkspace
  goals : List Goal
  ideas : List Idea
  insights : List Insight
  tasks : List DomainTask
  rulesets : List RuleSet
  docs : List Doc
  nodes : List GraphNode
  edges : List GraphEdge

namespace Rows

def empty : Rows := ⟨[], [], [], [], [], [], [], [], [], []⟩

instance : Append Rows where
  append a b := ⟨a.projects ++ b.projects, a.workspaces ++ b.workspaces, a.goals ++ b.goals,
    a.ideas ++ b.ideas, a.insights ++ b.insights, a.tasks ++ b.tasks, a.rulesets ++ b.rulesets,
    a.docs ++ b.docs, a.nodes ++ b.nodes, a.edges ++ b.edges⟩

variable (a b c : Rows)

@[simp] theorem append_projects : (a ++ b).projects = a.projects ++ b.projects := rfl
@[simp] theorem append_workspaces : (a ++ b).workspaces = a.workspaces ++ b.workspaces := rfl
@[simp] theorem append_goals : (a ++ b).goals = a.goals ++ b.goals := rfl
@[simp] theorem append_ideas : (a ++ b).ideas = a.ideas ++ b.ideas := rfl
@[simp] theorem append_insights : (a ++ b).insights = a.insights ++ b.insights := rfl
@[simp] theorem append_tasks : (a ++ b).tasks = a.tasks ++ b.tasks := rfl
@[simp] theorem append_rulesets : (a ++ b).rulesets = a.rulesets ++ b.rulesets := rfl
@[simp] theorem append_docs : (a ++ b).docs = a.docs ++ b.docs := rfl
@[simp] theorem append_nodes : (a ++ b).nodes = a.nodes ++ b.nodes := rfl
@[simp] theorem append_edges : (a ++ b).edges = a.edges ++ b.edges := rfl

theorem append_assoc : a ++ b ++ c = a ++ (b ++ c) := by ext1 <;> simp

@[simp] theorem append_empty : a ++ empty = a := by ext1 <;> simp [empty]

@[simp] theorem empty_append : empty ++ a = a := by ext1 <;> simp [empty]

end Rows

/-- The rows of a store that a bundle could have put there. -/
def Store.toRows (s : Store) : Rows where
  projects := s.projects.rows
  workspaces := s.workspaces.rows
  goals := s.goals.rows
  ideas := s.ideas.rows
  insights := s.insights.rows
  tasks := s.tasks.rows
  rulesets := s.rulesets.rows.filter fun r => r.scope = .project
  docs := s.docs.rows
  nodes := s.nodes.rows
  edges := s.edges.rows

/-- A step that adds rows behind those of a store, and changes none. -/
structure Store.Adds (s t : Store) (d : Rows) : Prop where
  rows : t.toRows = s.toRows ++ d
  workflows : t.workflows = s.workflows

/-- A family of rows that are added as they are. -/
class AddedChild (ρ : Type) [ProjectChild ρ] where
  added : List ρ → Rows
  added_nil : added [] = .empty
  added_cons : ∀ x xs, added (x :: xs) = added [x] ++ added xs
  adds_setTable : ∀ (s : Store) (u : KeyedTable (ProjectChild.id : ρ → String)) (xs : List ρ),
    u.rows = (ProjectChild.table s).rows ++ xs → s.Adds (ProjectChild.setTable s u) (added xs)

section Families

open Rows

instance : AddedChild Goal where
  added xs := { empty with goals := xs }
  added_nil := rfl
  added_cons _ _ := rfl
  adds_setTable s u xs h := by
    refine ⟨?_, rfl⟩
    ext1 <;> simp [Store.toRows, empty, ProjectChild.setTable]
    exact h

instance : AddedChild Idea where
  added xs := { empty with ideas := xs }
  added_nil := rfl
  added_cons _ _ := rfl
  adds_setTable s u xs h := by
    refine ⟨?_, rfl⟩
    ext1 <;> simp [Store.toRows, empty, ProjectChild.setTable]
    exact h

instance : AddedChild Insight where
  added xs := { empty with insights := xs }
  added_nil := rfl
  added_cons _ _ := rfl
  adds_setTable s u xs h := by
    refine ⟨?_, rfl⟩
    ext1 <;> simp [Store.toRows, empty, ProjectChild.setTable]
    exact h

instance : AddedChild DomainTask where
  added xs := { empty with tasks := xs }
  added_nil := rfl
  added_cons _ _ := rfl
  adds_setTable s u xs h := by
    refine ⟨?_, rfl⟩
    ext1 <;> simp [Store.toRows, empty, ProjectChild.setTable]
    exact h

instance : AddedChild RuleSet where
  added xs := { empty with rulesets := xs.filter fun r => r.scope = .project }
  added_nil := rfl
  added_cons x xs := by
    ext1 <;> simp [empty, List.filter_cons]
    split <;> rfl
  adds_setTable s u xs h := by
    refine ⟨?_, rfl⟩
    ext1 <;> simp [Store.toRows, empty, ProjectChild.setTable]
    rw [h, List.filter_append]
    rfl

instance : AddedChild Doc where
  added xs := { empty with docs := xs }
  added_nil := rfl
  added_cons _ _ := rfl
  adds_setTable s u xs h := by
    refine ⟨?_, rfl⟩
    ext1 <;> simp [Store.toRows, empty, ProjectChild.setTable]
    exact h

instance : AddedChild GraphNode where
  added xs := { empty with nodes := xs }
  added_nil := rfl
  added_cons _ _ := rfl
  adds_setTable s u xs h := by
    refine ⟨?_, rfl⟩
    ext1 <;> simp [Store.toRows, empty, ProjectChild.setTable]
    exact h

end Families

namespace Store

variable {s t u : Store} {d e : Rows}

theorem Adds.refl (s : Store) : s.Adds s .empty := ⟨(Rows.append_empty _).symm, rfl⟩

theorem Adds.trans (h : s.Adds t d) (h' : t.Adds u e) : s.Adds u (d ++ e) :=
  ⟨by rw [h'.rows, h.rows, Rows.append_assoc], h'.workflows.trans h.workflows⟩

namespace Adds

variable (h : s.Adds t d)
include h

theorem projects : t.projects.rows = s.projects.rows ++ d.projects := congrArg Rows.projects h.rows

theorem workspaces : t.workspaces.rows = s.workspaces.rows ++ d.workspaces :=
  congrArg Rows.workspaces h.rows

theorem goals : t.goals.rows = s.goals.rows ++ d.goals := congrArg Rows.goals h.rows

theorem ideas : t.ideas.rows = s.ideas.rows ++ d.ideas := congrArg Rows.ideas h.rows

theorem insights : t.insights.rows = s.insights.rows ++ d.insights := congrArg Rows.insights h.rows

theorem tasks : t.tasks.rows = s.tasks.rows ++ d.tasks := congrArg Rows.tasks h.rows

theorem rulesets : t.rulesets.rows.filter (fun r => r.scope = .project)
    = s.rulesets.rows.filter (fun r => r.scope = .project) ++ d.rulesets :=
  congrArg Rows.rulesets h.rows

theorem docs : t.docs.rows = s.docs.rows ++ d.docs := congrArg Rows.docs h.rows

theorem nodes : t.nodes.rows = s.nodes.rows ++ d.nodes := congrArg Rows.nodes h.rows

theorem edges : t.edges.rows = s.edges.rows ++ d.edges := congrArg Rows.edges h.rows

end Adds

theorem Adds.congr (h : s.Adds t d) (he : d = e) : s.Adds t e := he ▸ h

/-! ### Raw rows -/

section Rows

variable {ρ : Type} [ProjectChild ρ] [AddedChild ρ] {taken : OrchdPersistError}

theorem insertRow_adds {x : ρ} (h : s.insertRow x taken = .ok t) :
    s.Adds t (AddedChild.added [x]) := by
  unfold insertRow at h
  split at h
  · rename_i u hu
    cases h
    exact AddedChild.adds_setTable s u [x] (KeyedTable.insert_eq_some.1 hu).2
  · cases h

/-- Rows added one by one. -/
theorem foldlM_adds {β : Type} {f : Store → β → Except OrchdPersistError Store} {g : β → ρ}
    (hf : ∀ s x t, f s x = .ok t → s.Adds t (AddedChild.added [g x])) {xs : List β}
    (h : xs.foldlM f s = .ok t) : s.Adds t (AddedChild.added (xs.map g)) := by
  refine foldlM_rel (R := fun s xs t => s.Adds t (AddedChild.added (xs.map g))) ?_ ?_ h
  · intro s
    rw [List.map_nil, AddedChild.added_nil]
    exact Adds.refl s
  · intro s x t xs u hx hxs
    rw [List.map_cons, AddedChild.added_cons]
    exact (hf s x t hx).trans hxs

end Rows

theorem insertGoalRaw_adds {g : Goal} (h : s.insertGoalRaw g = .ok t) :
    s.Adds t (AddedChild.added [g]) := by
  simp only [insertGoalRaw, insertGoal, ite_error_eq_ok] at h
  exact insertRow_adds h.2

theorem insertNode_adds {n : GraphNode} {taken : OrchdPersistError}
    (h : s.insertNode n taken = .ok t) : s.Adds t (AddedChild.added [n]) := by
  simp only [insertNode, ite_error_eq_ok] at h
  exact insertRow_adds h.2.2

theorem insertDocRaw_adds {x : Doc} (h : s.insertDocRaw x = .ok t) :
    s.Adds t (AddedChild.added [x]) := by
  simp only [insertDocRaw, ite_error_eq_ok] at h
  exact insertRow_adds h.2

theorem insertEdge_adds {x : GraphEdge} {taken : OrchdPersistError}
    (h : s.insertEdge x taken = .ok t) : s.Adds t { Rows.empty with edges := [x] } := by
  simp only [insertEdge, ite_error_eq_ok] at h
  obtain ⟨-, -, h⟩ := h
  split at h
  · rename_i u hu
    cases h
    refine ⟨?_, rfl⟩
    ext1 <;> simp [toRows, Rows.empty]
    exact (KeyedTable.insert_eq_some.1 hu).2
  · cases h

theorem foldlM_edges_adds {xs : List GraphEdge}
    (h : xs.foldlM insertGraphEdgeRaw s = .ok t) :
    s.Adds t { Rows.empty with edges := xs } := by
  refine foldlM_rel (R := fun s xs t => s.Adds t { Rows.empty with edges := xs }) ?_ ?_ h
  · exact Adds.refl
  · intro s x t xs u hx hxs
    exact (insertEdge_adds hx).trans hxs

/-- The rows `insert_project` gives the workspaces of a list. -/
def workspaceRows (projectId : String) (ord : ℤ) : List String → List ProjectWorkspace
  | [] => []
  | w :: ws => ⟨projectId, w, ord⟩ :: workspaceRows projectId (ord + 1) ws

theorem insertWorkspaces_adds {p : String} {ord : ℤ} {ws : List String}
    (h : insertWorkspaces p ord ws s = .ok t) :
    s.Adds t { Rows.empty with workspaces := workspaceRows p ord ws } := by
  induction ws generalizing s ord with
  | nil =>
    cases h
    exact Adds.refl _
  | cons w ws ih =>
    simp only [insertWorkspaces] at h
    split at h
    · cases h
    · rename_i u hu
      have hone : s.Adds { s with workspaces := u }
          { Rows.empty with workspaces := [⟨p, w, ord⟩] } := by
        refine ⟨?_, rfl⟩
        ext1 <;> simp [toRows, Rows.empty]
        exact (KeyedTable.insert_eq_some.1 hu).2
      exact hone.trans (ih h)

theorem insertProjectRaw_adds {p : Project} (h : s.insertProjectRaw p = .ok t) :
    s.Adds t { Rows.empty with
      projects := [p.toProjectRow], workspaces := workspaceRows p.id 0 p.workspaceIds } := by
  simp only [insertProjectRaw, insertProject, bind_eq_ok] at h
  obtain ⟨u, hu, h⟩ := h
  split at hu
  · rename_i v hv
    cases hu
    have hone : s.Adds { s with projects := v } { Rows.empty with projects := [p.toProjectRow] } := by
      refine ⟨?_, rfl⟩
      ext1 <;> simp [toRows, Rows.empty]
      exact (KeyedTable.insert_eq_some.1 hv).2
    exact hone.trans (insertWorkspaces_adds h)
  · cases hu

/-- The global row is replaced or added, a project's is added. -/
theorem insertRulesetRaw_adds {r : RuleSet} (h : s.insertRulesetRaw r = .ok t) :
    s.Adds t (AddedChild.added [r]) := by
  unfold insertRulesetRaw at h
  rcases hscope : r.scope with _ | _ <;> rw [hscope] at h <;> dsimp only at h
  · have hnone : (AddedChild.added [r] : Rows) = .empty := by
      simp [AddedChild.added, hscope, Rows.empty]
    rw [hnone]
    split at h
    · rename_i q hq
      cases h
      have hq' : q.scope = .global := by simpa using List.find?_some hq
      refine ⟨?_, rfl⟩
      rw [Rows.append_empty]
      ext1 <;> simp only [toRows, replaceRow, ProjectChild.setTable, ProjectChild.table]
      refine KeyedTable.filter_replace (y := q) ?_ (by simp [hq']) (by simp [hq'])
      exact KeyedTable.mem_rows.1 (List.mem_of_find?_eq_some hq)
    · have hadd := insertRow_adds h
      simpa [AddedChild.added, hscope, Rows.empty] using hadd
  · simp only [ite_error_eq_ok, insertProjectRuleset] at h
    exact insertRow_adds h.2.2

end Store

/-! ### Bundles -/

section Bundles

variable (host : Host)

/-- The row an imported ruleset gets: its file is at the path it resolves to. -/
def importedRuleset (b : RuleSetBundle) : RuleSet :=
  { b.rule with mdPath := (resolveRulesetWritePath host b.rule).toOption.getD b.rule.mdPath }

def importedDoc (b : DocBundle) : Doc :=
  { b.doc with mdPath := (resolveDocWritePath host b.doc).toOption.getD b.doc.mdPath }

/-- The write a row's text asks for. -/
def writeOf (path : FilePath) (mdContent : Option String) : List PendingRulesetWrite :=
  mdContent.toList.map fun content => ⟨path, content⟩

def rulesetWrites (b : RuleSetBundle) : List PendingRulesetWrite :=
  writeOf (importedRuleset host b).mdPath b.mdContent

def docWrites (b : DocBundle) : List PendingRulesetWrite :=
  writeOf (importedDoc host b).mdPath b.mdContent

namespace ProjectBundle

variable (b : ProjectBundle)

/-- The rows a bundle puts in, before its graph is seeded. -/
def rows : Rows where
  projects := [b.project.toProjectRow]
  workspaces := Store.workspaceRows b.project.id 0 b.project.workspaceIds
  goals := b.goals
  ideas := b.ideas
  insights := b.insights
  tasks := b.tasks
  rulesets := (b.ruleset.toList.map (importedRuleset host)).filter fun r => r.scope = .project
  docs := b.docs.map (importedDoc host)
  nodes := b.graphNodes
  edges := b.graphEdges

def writes : List PendingRulesetWrite :=
  b.docs.flatMap (docWrites host) ++ b.ruleset.toList.flatMap (rulesetWrites host)

end ProjectBundle

/-- An entity a project's graph is to have a node of. -/
structure SeedSource where
  entityType : GraphEntityType
  entityId : String
  projectId : String
  label : String
  deriving DecidableEq

def SeedSource.node (draw : SeedDraw) (x : SeedSource) : GraphNode :=
  ⟨(draw x.entityType x.entityId).1, x.projectId, .entityRef, some x.entityType, some x.entityId,
    x.label, "", .finite 0, .finite 0, (draw x.entityType x.entityId).2,
    (draw x.entityType x.entityId).2⟩

def Goal.seedSource (g : Goal) : List SeedSource :=
  if g.kind = .strategic then [⟨.goal, g.id, g.projectId, g.title⟩] else []

def Insight.seedSource (i : Insight) : List SeedSource :=
  match i.status, i.projectId with
  | .accepted, some pid => [⟨.insight, i.id, pid, i.title⟩]
  | _, _ => []

/-- The entities a bundle's graph is seeded with, where they have no node. -/
def ProjectBundle.seedSources (b : ProjectBundle) : List SeedSource :=
  b.goals.flatMap Goal.seedSource ++ b.insights.flatMap Insight.seedSource

namespace AllImportEnvelope

variable (e : AllImportEnvelope)

def goals : List Goal := e.projects.flatMap ProjectBundle.goals

def tasks : List DomainTask := e.projects.flatMap ProjectBundle.tasks

/-- The rows an import puts in, but for the nodes it seeds. -/
def rows : Rows where
  projects := e.projects.flatMap fun b => (b.rows host).projects
  workspaces := e.projects.flatMap fun b => (b.rows host).workspaces
  goals := e.goals
  ideas := e.projects.flatMap ProjectBundle.ideas ++ e.orphanIdeas
  insights := e.projects.flatMap ProjectBundle.insights ++ e.orphanInsights
  tasks := e.tasks
  rulesets := e.projects.flatMap (fun b => (b.rows host).rulesets)
    ++ (e.globalRuleset.toList.map (importedRuleset host)).filter fun r => r.scope = .project
  docs := e.projects.flatMap fun b => (b.rows host).docs
  nodes := e.projects.flatMap ProjectBundle.graphNodes
  edges := e.projects.flatMap ProjectBundle.graphEdges

/-- The writes an import leaves to do, in their order. -/
def writes : List PendingRulesetWrite :=
  e.projects.flatMap (ProjectBundle.writes host)
    ++ e.globalRuleset.toList.flatMap (rulesetWrites host)

def seedSources : List SeedSource := e.projects.flatMap ProjectBundle.seedSources

end AllImportEnvelope

/-! ### What each step of an import adds -/

variable {host} {draw : SeedDraw} {s t : Store}

theorem importedRuleset_mdPath {b : RuleSetBundle} {path : FilePath}
    (h : resolveRulesetWritePath host b.rule = .ok path) :
    importedRuleset host b = { b.rule with mdPath := path } := by
  rw [importedRuleset, h]
  rfl

theorem importedDoc_mdPath {b : DocBundle} {path : FilePath}
    (h : resolveDocWritePath host b.doc = .ok path) :
    importedDoc host b = { b.doc with mdPath := path } := by
  rw [importedDoc, h]
  rfl

theorem pendingWrite_eq_ok {what dir : String} {path : FilePath} {mdContent : Option String}
    {ws : List PendingRulesetWrite} (h : pendingWrite host what dir path mdContent = .ok ws) :
    ws = writeOf path mdContent := by
  rcases mdContent with _ | content
  · cases h
    rfl
  · simp only [pendingWrite, bind_eq_ok, pure_eq_ok] at h
    obtain ⟨-, -, -, -, -, -, rfl⟩ := h
    rfl

namespace Orchd

theorem importRuleset_adds {st st' : Importing} {b : RuleSetBundle}
    (h : importRuleset host st b = .ok st') :
    st.1.Adds st'.1 (AddedChild.added [importedRuleset host b])
      ∧ st'.2 = st.2 ++ rulesetWrites host b := by
  simp only [importRuleset, bind_eq_ok, pure_eq_ok] at h
  obtain ⟨path, hpath, ws, hws, t, ht, rfl⟩ := h
  rw [rulesetWrites, importedRuleset_mdPath hpath]
  exact ⟨Store.insertRulesetRaw_adds ht, by rw [pendingWrite_eq_ok hws]⟩

theorem importRulesetOption_adds {st st' : Importing} {b : Option RuleSetBundle}
    (h : b.elim (pure st) (importRuleset host st) = .ok st') :
    st.1.Adds st'.1 (AddedChild.added (b.toList.map (importedRuleset host)))
      ∧ st'.2 = st.2 ++ b.toList.flatMap (rulesetWrites host) := by
  rcases b with _ | b
  · obtain rfl := pure_eq_ok.1 h
    refine ⟨?_, by simp⟩
    rw [Option.toList_none, List.map_nil, AddedChild.added_nil]
    exact Store.Adds.refl _
  · simpa using importRuleset_adds h

theorem importDoc_adds {st st' : Importing} {b : DocBundle} (h : importDoc host st b = .ok st') :
    st.1.Adds st'.1 (AddedChild.added [importedDoc host b])
      ∧ st'.2 = st.2 ++ docWrites host b := by
  simp only [importDoc, bind_eq_ok, pure_eq_ok] at h
  obtain ⟨path, hpath, ws, hws, t, ht, rfl⟩ := h
  rw [docWrites, importedDoc_mdPath hpath]
  exact ⟨Store.insertDocRaw_adds ht, by rw [pendingWrite_eq_ok hws]⟩

theorem importDocs_adds {st st' : Importing} {bs : List DocBundle}
    (h : bs.foldlM (importDoc host) st = .ok st') :
    st.1.Adds st'.1 (AddedChild.added (bs.map (importedDoc host)))
      ∧ st'.2 = st.2 ++ bs.flatMap (docWrites host) := by
  refine foldlM_rel (R := fun (st : Importing) bs (st' : Importing) =>
    st.1.Adds st'.1 (AddedChild.added (bs.map (importedDoc host)))
      ∧ st'.2 = st.2 ++ bs.flatMap (docWrites host)) ?_ ?_ h
  · intro st
    exact ⟨by rw [List.map_nil, AddedChild.added_nil]; exact Store.Adds.refl _, by simp⟩
  · rintro st b st' bs st'' hb ⟨hadds, hws⟩
    obtain ⟨hb, hbws⟩ := importDoc_adds hb
    refine ⟨?_, by rw [hws, hbws, List.flatMap_cons, List.append_assoc]⟩
    rw [List.map_cons, AddedChild.added_cons]
    exact hb.trans hadds

/-- A step that seeds the graph with some of the nodes it has sources for. -/
def Seeds (draw : SeedDraw) (xs : List SeedSource) (s t : Store) : Prop :=
  ∃ seeds, seeds.Sublist (xs.map (SeedSource.node draw)) ∧ s.Adds t (AddedChild.added seeds)

theorem Seeds.refl (s : Store) : Seeds draw [] s s :=
  ⟨[], List.Sublist.refl _, by rw [AddedChild.added_nil]; exact Store.Adds.refl s⟩

theorem Seeds.trans {xs ys : List SeedSource} {u : Store} (h : Seeds draw xs s t)
    (h' : Seeds draw ys t u) : Seeds draw (xs ++ ys) s u := by
  obtain ⟨l, hl, h⟩ := h
  obtain ⟨l', hl', h'⟩ := h'
  refine ⟨l ++ l', ?_, h.trans h'⟩
  rw [List.map_append]
  exact hl.append hl'

theorem seed_seeds {x : SeedSource}
    (h : s.seedEntityRefIfMissing draw x.projectId x.entityType x.entityId x.label = .ok t) :
    Seeds draw [x] s t := by
  unfold Store.seedEntityRefIfMissing at h
  split_ifs at h
  · cases h
    exact ⟨[], List.nil_sublist _, by rw [AddedChild.added_nil]; exact Store.Adds.refl _⟩
  · exact ⟨[x.node draw], List.Sublist.refl _, Store.insertNode_adds h⟩

theorem reseedGoal_seeds {g : Goal} (h : reseedGoal draw s g = .ok t) :
    Seeds draw g.seedSource s t := by
  unfold reseedGoal at h
  unfold Goal.seedSource
  split_ifs at h ⊢
  · exact seed_seeds (x := ⟨.goal, g.id, g.projectId, g.title⟩) h
  · cases h
    exact Seeds.refl _

theorem reseedInsight_seeds {i : Insight} (h : reseedInsight draw s i = .ok t) :
    Seeds draw i.seedSource s t := by
  rcases hstatus : i.status <;> rcases hpid : i.projectId with _ | pid <;>
    simp only [reseedInsight, hstatus, hpid] at h <;> simp only [Insight.seedSource, hstatus, hpid]
  case accepted.some => exact seed_seeds (x := ⟨.insight, i.id, pid, i.title⟩) h
  all_goals
    obtain rfl := Except.ok.inj h
    exact Seeds.refl _

theorem foldlM_seeds {β : Type} {f : Store → β → Except OrchdPersistError Store}
    (src : β → List SeedSource) (hf : ∀ s x t, f s x = .ok t → Seeds draw (src x) s t)
    {xs : List β} (h : xs.foldlM f s = .ok t) : Seeds draw (xs.flatMap src) s t := by
  refine foldlM_rel (R := fun s xs t => Seeds draw (xs.flatMap src) s t) ?_ ?_ h
  · exact Seeds.refl
  · intro s x t xs u hx hxs
    exact (hf s x t hx).trans hxs

theorem reseedEntityRefs_seeds {b : ProjectBundle} (h : reseedEntityRefs draw s b = .ok t) :
    Seeds draw b.seedSources s t := by
  simp only [reseedEntityRefs, bind_eq_ok] at h
  obtain ⟨u, hu, h⟩ := h
  exact (foldlM_seeds Goal.seedSource (fun _ _ _ => reseedGoal_seeds) hu).trans
    (foldlM_seeds Insight.seedSource (fun _ _ _ => reseedInsight_seeds) h)

theorem importOneProject_adds {st st' : Importing} {b : ProjectBundle}
    (h : importOneProject host draw st b = .ok st') :
    (∃ seeds, seeds.Sublist (b.seedSources.map (SeedSource.node draw))
        ∧ st.1.Adds st'.1 (b.rows host ++ AddedChild.added seeds))
      ∧ st'.2 = st.2 ++ b.writes host := by
  simp only [importOneProject, bind_eq_ok, pure_eq_ok] at h
  obtain ⟨-, -, s₁, h₁, s₂, h₂, s₃, h₃, s₄, h₄, s₅, h₅, ⟨s₆, ws₆⟩, h₆, s₇, h₇, s₈, h₈, ⟨s₉, ws₉⟩,
    h₉, t, ht, rfl⟩ := h
  obtain ⟨h₆, hws₆⟩ := importDocs_adds h₆
  have hrows := (((((Store.insertProjectRaw_adds h₁).trans
    (Store.foldlM_adds (g := id) (fun _ _ _ => Store.insertGoalRaw_adds) h₂)).trans
    (Store.foldlM_adds (g := id) (fun _ _ _ => Store.insertRow_adds) h₃)).trans
    (Store.foldlM_adds (g := id) (fun _ _ _ => Store.insertRow_adds) h₄)).trans
    (Store.foldlM_adds (g := id) (fun _ _ _ => Store.insertRow_adds) h₅)).trans (h₆.trans
    ((Store.foldlM_adds (g := id) (fun _ _ _ => Store.insertNode_adds) h₇).trans
    (Store.foldlM_edges_adds h₈)))
  obtain ⟨hruleset, hws⟩ := importRulesetOption_adds h₉
  obtain ⟨seeds, hsub, hseeds⟩ := reseedEntityRefs_seeds ht
  refine ⟨⟨seeds, hsub, ((hrows.trans hruleset).trans hseeds).congr ?_⟩, ?_⟩
  · ext1 <;> simp [ProjectBundle.rows, AddedChild.added, Rows.empty]
  · rw [hws, hws₆, ProjectBundle.writes, List.append_assoc]

/-- The rows a list of bundles puts in, with the nodes seeded among them. -/
def bundleRows (host : Host) (bs : List ProjectBundle) (nodes : List GraphNode) : Rows :=
  { AllImportEnvelope.rows host ⟨bs, none, [], []⟩ with nodes := nodes }

theorem importProjects_adds {st st' : Importing} {bs : List ProjectBundle}
    (h : bs.foldlM (importOneProject host draw) st = .ok st') :
    (∃ nodes seeds, st.1.Adds st'.1 (bundleRows host bs nodes)
        ∧ nodes.Perm (bs.flatMap ProjectBundle.graphNodes ++ seeds)
        ∧ seeds.Sublist ((bs.flatMap ProjectBundle.seedSources).map (SeedSource.node draw)))
      ∧ st'.2 = st.2 ++ bs.flatMap (ProjectBundle.writes host) := by
  refine foldlM_rel (R := fun (st : Importing) bs (st' : Importing) =>
    (∃ nodes seeds, st.1.Adds st'.1 (bundleRows host bs nodes)
        ∧ nodes.Perm (bs.flatMap ProjectBundle.graphNodes ++ seeds)
        ∧ seeds.Sublist ((bs.flatMap ProjectBundle.seedSources).map (SeedSource.node draw)))
      ∧ st'.2 = st.2 ++ bs.flatMap (ProjectBundle.writes host)) ?_ ?_ h
  · intro st
    exact ⟨⟨[], [], Store.Adds.refl _, List.Perm.refl _, List.Sublist.refl _⟩, by simp⟩
  · rintro st b st' bs st'' hb ⟨⟨nodes, seeds, hadds, hperm, hsub⟩, hws⟩
    obtain ⟨⟨seeds', hsub', hadds'⟩, hws'⟩ := importOneProject_adds hb
    refine ⟨⟨b.graphNodes ++ seeds' ++ nodes, seeds' ++ seeds, (hadds'.trans hadds).congr ?_, ?_, ?_⟩,
      by rw [hws, hws', List.flatMap_cons, List.append_assoc]⟩
    · ext1 <;> simp [bundleRows, AllImportEnvelope.rows, AllImportEnvelope.goals,
        AllImportEnvelope.tasks, ProjectBundle.rows, AddedChild.added, Rows.empty]
    · refine (hperm.append_left _).trans ?_
      simp only [List.flatMap_cons, List.append_assoc]
      exact (List.perm_append_comm_assoc _ _ _).append_left _
    · rw [List.flatMap_cons, List.map_append]
      exact hsub'.append hsub

/-- An import that goes through adds the bundle's rows and nodes it seeds, leaves the bundle's writes
to do, and has every row its rows refer to. -/
theorem importRows_adds {e : AllImportEnvelope} {st : Importing}
    (h : importRows host draw s e = .ok st) :
    (∃ nodes seeds, s.Adds st.1 { e.rows host with nodes := nodes }
        ∧ nodes.Perm ((e.rows host).nodes ++ seeds)
        ∧ seeds.Sublist (e.seedSources.map (SeedSource.node draw)))
      ∧ st.2 = e.writes host ∧ st.1.foreignKeysHold = true := by
  simp only [importRows, ite_throw_eq_ok, throw_bind, bind_eq_ok, pure_eq_ok] at h
  obtain ⟨⟨s₁, ws₁⟩, h₁, ⟨s₂, ws₂⟩, h₂, s₃, h₃, s₄, h₄, hkeys, rfl⟩ := h
  obtain ⟨⟨nodes, seeds, h₁, hperm, hsub⟩, hws₁⟩ := importProjects_adds h₁
  obtain ⟨h₂, hws₂⟩ := importRulesetOption_adds h₂
  have h₃ := Store.foldlM_adds (g := id) (fun _ _ _ => Store.insertRow_adds) h₃
  have h₄ := Store.foldlM_adds (g := id) (fun _ _ _ => Store.insertRow_adds) h₄
  refine ⟨⟨nodes, seeds, (((h₁.trans h₂).trans h₃).trans h₄).congr ?_, hperm, hsub⟩, ?_, ?_⟩
  · ext1 <;> simp [bundleRows, AllImportEnvelope.rows, AllImportEnvelope.goals,
      AllImportEnvelope.tasks, AddedChild.added, Rows.empty]
  · simp only at hws₁ hws₂
    rw [hws₂, hws₁, List.nil_append, AllImportEnvelope.writes]
  · simpa using hkeys

theorem importBundle_eq_ok {serde : BundleJson} {o : Orchd} {json : String}
    {r : Orchd × ImportOutcome}
    (h : importBundle host draw serde o json = .ok r) :
    ∃ e st, parseBundle serde json = .ok e ∧ importRows host draw o.db e = .ok st
      ∧ r.1 = ⟨st.1, (writePending host o.files none st.2).1⟩
      ∧ r.2 = ⟨importCounts e, (writePending host o.files none st.2).2⟩ := by
  simp only [importBundle, importProjectBundles, bind_eq_ok, pure_eq_ok] at h
  obtain ⟨e, he, st, hst, rfl⟩ := h
  exact ⟨e, st, he, hst, rfl, rfl⟩

/-! ### What holds of every row that goes in -/

/-- A property each raw row that goes in keeps. -/
structure RawKept (P : Store → Prop) : Prop where
  project : ∀ {s p t}, s.insertProjectRaw p = .ok t → P s → P t
  goal : ∀ {s g t}, s.insertGoalRaw g = .ok t → P s → P t
  idea : ∀ {s i t}, s.insertIdeaRaw i = .ok t → P s → P t
  insight : ∀ {s i t}, s.insertInsightRaw i = .ok t → P s → P t
  task : ∀ {s x t}, s.insertTaskRaw x = .ok t → P s → P t
  ruleset : ∀ {s r t}, s.insertRulesetRaw r = .ok t → P s → P t
  doc : ∀ {s d t}, s.insertDocRaw d = .ok t → P s → P t
  node : ∀ {s n taken t}, s.insertNode n taken = .ok t → P s → P t
  edge : ∀ {s x t}, s.insertGraphEdgeRaw x = .ok t → P s → P t

section RawKept

variable {P : Store → Prop} (hP : RawKept P)
include hP

theorem importRuleset_keeps {st st' : Importing} {b : RuleSetBundle}
    (h : importRuleset host st b = .ok st') (hs : P st.1) : P st'.1 := by
  simp only [importRuleset, bind_eq_ok, pure_eq_ok] at h
  obtain ⟨path, -, ws, -, t, ht, rfl⟩ := h
  exact hP.ruleset ht hs

theorem importRulesetOption_keeps {st st' : Importing} {b : Option RuleSetBundle}
    (h : b.elim (pure st) (importRuleset host st) = .ok st') (hs : P st.1) : P st'.1 := by
  rcases b with _ | b
  · obtain rfl := pure_eq_ok.1 h
    exact hs
  · exact importRuleset_keeps hP h hs

theorem importDoc_keeps {st st' : Importing} {b : DocBundle} (h : importDoc host st b = .ok st')
    (hs : P st.1) : P st'.1 := by
  simp only [importDoc, bind_eq_ok, pure_eq_ok] at h
  obtain ⟨path, -, ws, -, t, ht, rfl⟩ := h
  exact hP.doc ht hs

theorem seedEntityRefIfMissing_keeps {p id label : String} {ty : GraphEntityType}
    (h : s.seedEntityRefIfMissing draw p ty id label = .ok t) (hs : P s) : P t := by
  unfold Store.seedEntityRefIfMissing at h
  split_ifs at h
  · cases h
    exact hs
  · exact hP.node h hs

theorem reseedEntityRefs_keeps {b : ProjectBundle} (h : reseedEntityRefs draw s b = .ok t)
    (hs : P s) : P t := by
  simp only [reseedEntityRefs, bind_eq_ok] at h
  obtain ⟨u, hu, h⟩ := h
  refine foldlM_keeps (fun s i t hi hs => ?_) h (foldlM_keeps (fun s g t hg hs => ?_) hu hs)
  · unfold reseedInsight at hi
    split at hi
    · exact seedEntityRefIfMissing_keeps hP hi hs
    · cases hi
      exact hs
  · unfold reseedGoal at hg
    split_ifs at hg
    · exact seedEntityRefIfMissing_keeps hP hg hs
    · cases hg
      exact hs

theorem importOneProject_keeps {st st' : Importing} {b : ProjectBundle}
    (h : importOneProject host draw st b = .ok st') (hs : P st.1) : P st'.1 := by
  simp only [importOneProject, bind_eq_ok, pure_eq_ok] at h
  obtain ⟨-, -, s₁, h₁, s₂, h₂, s₃, h₃, s₄, h₄, s₅, h₅, st₆, h₆, s₇, h₇, s₈, h₈, st₉, h₉, t, ht,
    rfl⟩ := h
  have hs₁ := hP.project h₁ hs
  have hs₂ := foldlM_keeps (fun _ _ _ h hs => hP.goal h hs) h₂ hs₁
  have hs₃ := foldlM_keeps (fun _ _ _ h hs => hP.idea h hs) h₃ hs₂
  have hs₄ := foldlM_keeps (fun _ _ _ h hs => hP.insight h hs) h₄ hs₃
  have hs₅ := foldlM_keeps (fun _ _ _ h hs => hP.task h hs) h₅ hs₄
  have hs₆ := foldlM_keeps (I := fun st : Importing => P st.1)
    (fun _ _ _ h hs => importDoc_keeps hP h hs) h₆ hs₅
  have hs₇ := foldlM_keeps (fun _ _ _ h hs => hP.node h hs) h₇ hs₆
  have hs₈ := foldlM_keeps (fun _ _ _ h hs => hP.edge h hs) h₈ hs₇
  exact reseedEntityRefs_keeps hP ht (importRulesetOption_keeps hP h₉ hs₈)

theorem importRows_keeps {e : AllImportEnvelope} {st : Importing}
    (h : importRows host draw s e = .ok st) (hs : P s) : P st.1 := by
  simp only [importRows, ite_throw_eq_ok, throw_bind, bind_eq_ok, pure_eq_ok] at h
  obtain ⟨st₁, h₁, st₂, h₂, s₃, h₃, s₄, h₄, -, rfl⟩ := h
  have hs₁ := foldlM_keeps (I := fun st : Importing => P st.1)
    (fun _ _ _ h hs => importOneProject_keeps hP h hs) h₁ hs
  have hs₂ := importRulesetOption_keeps hP h₂ hs₁
  have hs₃ := foldlM_keeps (fun _ _ _ h hs => hP.idea h hs) h₃ hs₂
  exact foldlM_keeps (fun _ _ _ h hs => hP.insight h hs) h₄ hs₃

end RawKept

end Orchd

end Bundles

end BuilderPro
