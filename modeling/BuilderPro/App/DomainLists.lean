import BuilderPro.Lib.RefreshGuard
import BuilderPro.Lib.Runs
import Mathlib.Data.List.AList

/-!
# Domain lists of the app

The app holds copies of the orchestrator's lists.  A copy is refreshed when its surface opens, when
a push names its list, and when the connection comes back; each refresh goes through the guard of
its list.  A list on screen is up to date or about to be in every run in which each change reaches
it on one of these ways (`shown_eq_served`).
-/

namespace BuilderPro

/-- A list the orchestrator serves; the ruleset of no project is the global one. -/
inductive Slice
  | projects
  | goals (projectId : String)
  | tasks (projectId : String)
  | ideas
  | insights
  | ruleset (projectId : Option String)
  | docs (projectId : String)
  | doc (projectId name : String)
  | graph (projectId : String)
  | researchRuns (ideaId : String)
  | mcpServers
  | mcpTools (serverId : String)
  | mcpArtifacts
  | accounts
  | skills
  | policies
  | auditRows
  | invocations
  | workflows
  deriving DecidableEq

/-- A row: `projectId` is an idea's, `archived` a project's, `body` what else it shows. -/
structure Row where
  id : String
  projectId : Option String
  archived : Bool
  body : String
  deriving DecidableEq

/-- What the orchestrator returns; only a document may be missing. -/
abbrev Served := Option (List Row)

abbrev HeldLists := AList fun _ : Slice => List Row

inductive OrchdPush
  | projectsChanged
  | goalsChanged (projectId : String)
  | ideasChanged
  | insightsChanged
  | tasksChanged (projectId : String)
  | rulesetChanged (projectId : Option String)
  | docsChanged (projectId : String)
  | graphChanged (projectId : String)
  | mcpServersChanged
  | mcpToolsChanged (serverId : String)
  | mcpArtifactsChanged
  | mcpInvocationLogged
  | connectorsChanged
  | skillsChanged
  | policiesChanged
  | workflowsChanged
  | researchRunsChanged (ideaId : Option String)
  deriving DecidableEq

inductive AppView
  | home | workspace | project | ext | inbox | stats | workflows
  deriving DecidableEq

/-- What is mounted: a view's panel, a tab or a dialog of it. -/
inductive Surface
  | workspaceSidebar
  | homeGoals
  | projectPanel (projectId : String)
  | goalTree (projectId : String)
  | tasksList (projectId : String)
  | ideasList (projectId : Option String)
  | insightsList
  | rulesetPanel (projectId : String)
  | graphCanvas (projectId : String)
  | docsPanel (projectId : String)
  | docEditor (projectId name : String)
  | inboxPanel
  | researchPane (ideaId : String)
  | researchRunDialog
  | toolPicker (serverId : String)
  | formInsightDialog (projectId : String)
  | extPanel
  | toolsBrowser
  | connectorsTab
  | invocationLog
  | artifactsTab
  | skillsTab
  | workflowsView
  | workflowEditor
  | runWorkflowPicker
  deriving DecidableEq

namespace Slice

/-- The project of a document. -/
def docOf : Slice → Option String
  | doc p _ => some p
  | _ => none

def isResearchRuns : Slice → Bool
  | researchRuns _ => true
  | _ => false

end Slice

namespace OrchdPush

def target : OrchdPush → Option Slice
  | projectsChanged => some .projects
  | goalsChanged p => some (.goals p)
  | ideasChanged => some .ideas
  | insightsChanged => some .insights
  | tasksChanged p => some (.tasks p)
  | rulesetChanged p => some (.ruleset p)
  | docsChanged p => some (.docs p)
  | graphChanged p => some (.graph p)
  | mcpServersChanged => some .mcpServers
  | mcpToolsChanged s => some (.mcpTools s)
  | mcpArtifactsChanged => some .mcpArtifacts
  | mcpInvocationLogged => some .invocations
  | connectorsChanged => some .accounts
  | skillsChanged => some .skills
  | policiesChanged => some .policies
  | workflowsChanged => some .workflows
  | researchRunsChanged i => i.map .researchRuns

/-- The documents a push is about, by their project. -/
def docsOf : OrchdPush → Option String
  | docsChanged p => some p
  | _ => none

/-- What the handler refreshes: of the documents, those already held. -/
def handler (held : HeldLists) (p : OrchdPush) : List Slice :=
  p.target.toList ++ held.keys.filter fun s => s.docOf.isSome && s.docOf = p.docsOf

def Concerns (p : OrchdPush) (s : Slice) : Prop :=
  p.target = some s ∨ (s.docOf.isSome ∧ s.docOf = p.docsOf)

instance (p : OrchdPush) (s : Slice) : Decidable (p.Concerns s) :=
  inferInstanceAs (Decidable (_ ∨ _))

theorem mem_handler_of_target {p : OrchdPush} {s : Slice} (held : HeldLists)
    (h : p.target = some s) : s ∈ p.handler held := by
  simp [handler, h]

end OrchdPush

/-- The rows of a list the store holds; one it does not hold has none. -/
def heldRows (held : HeldLists) (s : Slice) : List Row := (held.lookup s).getD []

namespace Surface

/-- The lists a surface always shows. -/
def lists : Surface → List Slice
  | workspaceSidebar | homeGoals => [.projects]
  | projectPanel p => [.projects, .goals p, .tasks p, .ideas, .insights]
  | goalTree p => [.goals p]
  | tasksList p => [.tasks p]
  | ideasList _ => [.ideas, .projects]
  | insightsList => [.insights]
  | rulesetPanel p => [.ruleset (some p)]
  | graphCanvas p => [.graph p]
  | docsPanel p => [.docs p]
  | docEditor p name => [.doc p name]
  | inboxPanel => []
  | researchPane i => [.researchRuns i, .mcpServers]
  | researchRunDialog => [.mcpServers, .policies]
  | toolPicker s => [.mcpTools s]
  | formInsightDialog p => [.goals p, .graph p]
  | extPanel | toolsBrowser => [.mcpServers]
  | connectorsTab => [.accounts]
  | invocationLog => [.invocations, .auditRows, .policies, .mcpServers]
  | artifactsTab => [.mcpArtifacts, .mcpServers]
  | skillsTab => [.skills]
  | workflowsView => [.workflows, .projects]
  | workflowEditor => [.skills, .projects]
  | runWorkflowPicker => [.workflows]

/-- The list whose rows say which further lists a surface shows. -/
def parent : Surface → Option Slice
  | homeGoals => some .projects
  | toolsBrowser => some .mcpServers
  | ideasList _ => some .ideas
  | _ => none

def children (rows : List Row) : Surface → List Slice
  | homeGoals => (rows.filter fun p => !p.archived).map fun p => .goals p.id
  | toolsBrowser => rows.map fun server => .mcpTools server.id
  | ideasList scope => (rows.filter fun i => i.projectId = scope).map fun i => .researchRuns i.id
  | _ => []

def childLists (held : HeldLists) (c : Surface) : List Slice :=
  c.parent.elim [] fun s => c.children (heldRows held s)

def shows (held : HeldLists) (c : Surface) : List Slice := c.lists ++ c.childLists held

/-- What the mount effects refresh. -/
def onMount (held : HeldLists) (c : Surface) : List Slice :=
  (match c with
    | projectPanel p => [.goals p, .tasks p, .ideas, .insights]
    | goalTree p => if heldRows held (.goals p) = [] then [.goals p] else []
    | tasksList p => if heldRows held (.tasks p) = [] then [.tasks p] else []
    | rulesetPanel p => [.ruleset (some p)]
    | graphCanvas p => [.graph p]
    | docsPanel p => [.docs p]
    | docEditor p name => [.doc p name]
    | inboxPanel => [.ideas, .insights]
    | researchRunDialog => [.policies]
    | toolPicker s => if .mcpTools s ∈ held then [] else [.mcpTools s]
    | formInsightDialog p => [.goals p, .graph p]
    | extPanel => [.mcpServers]
    | connectorsTab => [.accounts]
    | invocationLog => [.invocations, .auditRows, .policies]
    | artifactsTab => [.mcpArtifacts]
    | skillsTab => [.skills]
    | workflowsView => [.workflows]
    | _ => []) ++ (c.childLists held).filter (· ∉ held)

/-- What the effects refresh when the rows of the list `s` are replaced: `HomeGoals` looks at every
new array, the others at new ids only. -/
def onRows (held : HeldLists) (s : Slice) (old new : List Row) (c : Surface) : List Slice :=
  if c.parent = some s ∧ (c = homeGoals ∨ c.children old ≠ c.children new) then
    (c.children new).filter (· ∉ held)
  else []

def within (view : AppView) (activeProjectId : Option String) : Surface → Bool
  | workspaceSidebar => true
  | homeGoals => view = .home
  | projectPanel p | goalTree p | tasksList p | ideasList (some p) | rulesetPanel p | graphCanvas p
  | docsPanel p | docEditor p _ | formInsightDialog p =>
    view = .project && activeProjectId = some p
  | inboxPanel | ideasList none => view = .inbox
  | insightsList | researchPane _ | researchRunDialog | toolPicker _ =>
    view = .project || view = .inbox
  | extPanel | toolsBrowser | connectorsTab | invocationLog | artifactsTab | skillsTab => view = .ext
  | workflowsView | workflowEditor | runWorkflowPicker => view = .workflows

theorem mem_childLists {held : HeldLists} {c : Surface} {t : Slice} :
    t ∈ c.childLists held ↔ ∃ s, c.parent = some s ∧ t ∈ c.children (heldRows held s) := by
  unfold childLists
  rcases h : c.parent with _ | s <;> simp

theorem parent_mem_lists {c : Surface} {s : Slice} (h : c.parent = some s) : s ∈ c.lists := by
  rcases c <;> simp_all [parent, lists]

/-- New rows bring a list on screen that is not held. -/
theorem mem_onRows {held : HeldLists} {c : Surface} {s t : Slice} {old new : List Row}
    (hparent : c.parent = some s) (hnew : c.children old ≠ c.children new)
    (ht : t ∈ c.children new) (hheld : t ∉ held) : t ∈ c.onRows held s old new := by
  rw [onRows, if_pos ⟨hparent, .inr hnew⟩]
  exact List.mem_filter.2 ⟨ht, decide_eq_true hheld⟩

end Surface

/-- What a view mounts by itself. -/
def AppView.roots (activeProjectId : Option String) : AppView → List Surface
  | home => [.homeGoals]
  | project => activeProjectId.toList.map .projectPanel
  | ext => [.extPanel]
  | inbox => [.inboxPanel, .ideasList none, .insightsList]
  | workflows => [.workflowsView]
  | workspace | stats => []

/-- How a workflow is patched into the held list when the app's own request is answered. -/
inductive WorkflowPatch
  | upsert (saved : Row)
  | delete (id : String)
  deriving DecidableEq

def WorkflowPatch.apply (rows : List Row) : WorkflowPatch → List Row
  | upsert saved => (rows.filter fun w => w.id ≠ saved.id) ++ [saved]
  | delete id => rows.filter fun w => w.id ≠ id

end BuilderPro
