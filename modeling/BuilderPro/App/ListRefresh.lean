import BuilderPro.App.DomainLists

/-!
# Refreshing the domain lists

The app and the orchestrator take steps in any order: changes on either side of an outage, pushes
and the reconnect notice on their way, fetches answered and taken over, views and tabs opened and
left.  While the app is connected, every list on screen is up to date or about to be, as long as
each step meets `InTouch` (`upToDate_run`); at rest it is what the orchestrator returns
(`shown_eq_served`).
-/

namespace BuilderPro

/-- The guards of the store by their lists, and the debounce timer of the invocations. -/
structure Fetches where
  guards : AList fun _ : Slice => RefreshGuard Served
  invocationsTimer : Bool

namespace Fetches

def guard (f : Fetches) (s : Slice) : RefreshGuard Served := (f.guards.lookup s).getD .idle

def setGuard (f : Fetches) (s : Slice) (g : RefreshGuard Served) : Fetches :=
  { f with guards := f.guards.insert s g }

/-- A `refresh*` action; that of the invocations starts its timer anew. -/
def refresh (f : Fetches) (s : Slice) : Fetches :=
  if s = .invocations then { f with invocationsTimer := true } else f.setGuard s (f.guard s).call

def refreshAll (f : Fetches) (l : List Slice) : Fetches := l.foldl refresh f

def fireTimer (f : Fetches) : Fetches :=
  ⟨f.guards.insert .invocations (f.guard .invocations).call, false⟩

def Due (f : Fetches) (s : Slice) : Prop :=
  (s = .invocations ∧ f.invocationsTimer = true) ∨ (f.guard s).Due

def Settles (f : Fetches) (s : Slice) (held now : Served) : Prop :=
  (s = .invocations ∧ f.invocationsTimer = true) ∨ (f.guard s).Settles held now

instance (f : Fetches) (s : Slice) : Decidable (f.Due s) := inferInstanceAs (Decidable (_ ∨ _))

instance (f : Fetches) (s : Slice) (held now : Served) : Decidable (f.Settles s held now) :=
  inferInstanceAs (Decidable (_ ∨ _))

variable {f : Fetches} {s t : Slice} {held now : Served}

theorem guard_setGuard (f : Fetches) (s t : Slice) (g : RefreshGuard Served) :
    (f.setGuard s g).guard t = if t = s then g else f.guard t := by
  by_cases h : t = s
  · subst h
    simp [guard, setGuard, AList.lookup_insert]
  · simp [guard, setGuard, h, AList.lookup_insert_ne h]

theorem Due.settles (h : f.Due s) : f.Settles s held now := h.imp id fun h => h.settles

theorem due_refresh (f : Fetches) (s : Slice) : (f.refresh s).Due s := by
  by_cases h : s = .invocations
  · exact .inl ⟨h, by simp [refresh, h]⟩
  · rw [refresh, if_neg h, Due, guard_setGuard, if_pos rfl]
    exact .inr (RefreshGuard.due_call _)

theorem Settles.refresh (h : f.Settles t held now) (s : Slice) :
    (f.refresh s).Settles t held now := by
  by_cases ht : t = s
  · exact ht ▸ (due_refresh f s).settles
  · unfold Fetches.refresh
    split_ifs
    · exact h.imp (fun h => ⟨h.1, rfl⟩) id
    · rwa [Settles, guard_setGuard, if_neg ht]

theorem Settles.refreshAll {l : List Slice} (h : f.Settles t held now) :
    (f.refreshAll l).Settles t held now := by
  induction l generalizing f with
  | nil => exact h
  | cons s l ih => exact ih (h.refresh s)

theorem settles_refreshAll {l : List Slice} (h : t ∈ l) :
    (f.refreshAll l).Settles t held now := by
  induction l generalizing f with
  | nil => cases h
  | cons s l ih =>
    by_cases hl : t ∈ l
    · exact ih hl
    · obtain rfl : t = s := (List.mem_cons.1 h).resolve_right hl
      exact ((due_refresh f t).settles).refreshAll

theorem Settles.fireTimer (h : f.Settles t held now) : f.fireTimer.Settles t held now := by
  by_cases ht : t = .invocations
  · subst ht
    have hguard : f.fireTimer.guard .invocations = (f.guard .invocations).call := by
      simp [guard, Fetches.fireTimer, AList.lookup_insert]
    refine Due.settles (.inr ?_)
    rw [hguard]
    exact RefreshGuard.due_call _
  · have hguard : f.fireTimer.guard t = f.guard t := by
      simp [guard, Fetches.fireTimer, AList.lookup_insert_ne ht]
    rw [Settles, hguard]
    exact .inr (h.resolve_left fun h => ht h.1)

/-- The guard of a list is replaced. -/
theorem settles_setGuard {g : RefreshGuard Served} {held' : Served}
    (h : f.Settles t held now) (hg : t = s → (f.guard s).Settles held now → g.Settles held' now)
    (hheld : t ≠ s → held' = held) : (f.setGuard s g).Settles t held' now := by
  by_cases ht : t = s
  · rw [Settles, guard_setGuard, if_pos ht]
    exact h.imp id fun h => hg ht (ht ▸ h)
  · rwa [Settles, guard_setGuard, if_neg ht, hheld ht]

end Fetches

/-- What the core sends to the app. -/
inductive OrchdEvent
  | push (p : OrchdPush)
  | up
  deriving DecidableEq

/-- The app's store and screen, what is on its way, and what the orchestrator would return now. -/
structure ListState where
  connected : Bool
  served : Slice → Served
  held : HeldLists
  fetches : Fetches
  events : List OrchdEvent
  replies : List WorkflowPatch
  view : AppView
  activeProjectId : Option String
  screen : List Surface

/-- A step of the app, of the connection or of the orchestrator; `change` is one request of any
client, with the pushes its dispatch broadcasts. -/
inductive ListAction
  | change (writes : List (Slice × Served)) (pushes : List OrchdPush)
  | disconnect
  | reconnect
  | deliver
  | refresh (s : Slice)
  | fireTimer
  | answer (s : Slice)
  | fail (s : Slice)
  | complete (s : Slice)
  | setView (view : AppView)
  | openProject (projectId : String)
  | mount (c : Surface)
  | unmount (c : Surface)
  | saveWorkflow (patch : WorkflowPatch) (rows : List Row)
  | patchWorkflows (i : ℕ)

namespace OrchdEvent

/-- The lists a notice is about: those of a push, and all of them once the connection is back. -/
def Concerns (s : Slice) : OrchdEvent → Prop
  | push p => p.Concerns s
  | up => True

instance (s : Slice) : (e : OrchdEvent) → Decidable (e.Concerns s)
  | push p => inferInstanceAs (Decidable (p.Concerns s))
  | up => isTrue trivial

end OrchdEvent

namespace ListState

def keyless : List Slice :=
  [.projects, .ideas, .insights, .mcpServers, .mcpArtifacts, .accounts, .skills, .policies,
    .auditRows, .invocations, .workflows]

/-- The app has just started, on the home view. -/
def init (served : Slice → Served) (connected : Bool) : ListState where
  connected := connected
  served := served
  held := keyless.foldr (fun s held => held.insert s []) ∅
  fetches := Fetches.refreshAll ⟨∅, false⟩ [.projects, .workflows]
  events := []
  replies := []
  view := .home
  activeProjectId := none
  screen := [.workspaceSidebar, .homeGoals]

variable (st : ListState)

def shown : List Slice := st.screen.flatMap fun c => c.shows st.held

def onOrchdUp : List Slice :=
  [.projects] ++
    (match st.activeProjectId with
      | some p =>
        [.goals p, .tasks p, .ideas, .insights, .ruleset (some p), .graph p, .docs p]
      | none => []) ++
    st.held.keys.filter (fun s => s.docOf.isSome) ++
    [.mcpServers, .mcpArtifacts, .accounts, .skills, .policies, .invocations] ++
    (heldRows st.held .mcpServers).map (fun server => .mcpTools server.id) ++
    [.auditRows, .workflows] ++
    st.held.keys.filter (fun s => s.isResearchRuns) ++
    if .ruleset none ∈ st.held then [.ruleset none] else []

/-- What the handler of a notice refreshes. -/
def handler : OrchdEvent → List Slice
  | .push p => p.handler st.held
  | .up => st.onOrchdUp

def refreshAll (l : List Slice) : ListState := { st with fetches := st.fetches.refreshAll l }

/-- Surfaces come on screen and their mount effects run. -/
def enter (screen new : List Surface) : ListState :=
  { st with
    screen := screen ++ new
    fetches := st.fetches.refreshAll (new.flatMap fun c => c.onMount st.held) }

/-- What the orchestrator returns after a request, and the pushes that get through. -/
def afterChange (writes : List (Slice × Served)) (pushes : List OrchdPush) : ListState :=
  { st with
    served := fun s => ((writes.find? fun w => w.1 = s).map Prod.snd).getD (st.served s)
    events := if st.connected then st.events ++ pushes.map .push else st.events }

/-- The rows of an answered fetch are set; a document that is gone is dropped. -/
def setHeld (s : Slice) : Served → HeldLists
  | some rows => st.held.insert s rows
  | none => st.held.erase s

/-- A current answer is taken over, and the effects that follow the list run. -/
def takeOver (s : Slice) (r : Option Served) (g : RefreshGuard Served) : ListState :=
  let st' := { st with fetches := st.fetches.setGuard s g }
  match r with
  | none => st'
  | some v =>
    { st' with held := st.setHeld s v }.refreshAll <| st.screen.flatMap <|
      Surface.onRows (st.setHeld s v) s (heldRows st.held s) (v.getD [])

def step : ListAction → Option ListState
  | .change writes pushes => some (st.afterChange writes pushes)
  | .disconnect => if st.connected then some { st with connected := false } else none
  | .reconnect =>
    if st.connected then none
    else some { st with connected := true, events := st.events ++ [.up] }
  | .deliver =>
    match st.events with
    | e :: events => some ({ st with events := events }.refreshAll (st.handler e))
    | [] => none
  | .refresh s => some (st.refreshAll [s])
  | .fireTimer =>
    if st.fetches.invocationsTimer then some { st with fetches := st.fetches.fireTimer } else none
  | .answer s =>
    -- a fetch made while connected succeeds, and only that of a document may find nothing
    if st.connected ∧ (st.served s = none → s.docOf.isSome) then
      ((st.fetches.guard s).put (.answered (st.served s))).map fun g =>
        { st with fetches := st.fetches.setGuard s g }
    else none
  | .fail s =>
    if st.connected then none
    else ((st.fetches.guard s).put .failed).map fun g =>
      { st with fetches := st.fetches.setGuard s g }
  | .complete s => (st.fetches.guard s).settle.map fun (r, g) => st.takeOver s r g
  | .setView view =>
    if view = st.view ∨ view = .project then none
    else some ({ st with view := view }.enter [.workspaceSidebar] (view.roots st.activeProjectId))
  | .openProject p =>
    if st.view = .project ∧ st.activeProjectId = some p then none
    else some ({ st with view := .project, activeProjectId := some p }.enter [.workspaceSidebar]
      (AppView.project.roots (some p)))
  | .mount c =>
    if c.within st.view st.activeProjectId ∧ c ∉ st.screen then some (st.enter st.screen [c])
    else none
  | .unmount c =>
    if c ∈ st.screen ∧ c ≠ .workspaceSidebar ∧ c ∉ st.view.roots st.activeProjectId then
      some { st with screen := st.screen.erase c }
    else none
  | .saveWorkflow patch rows =>
    if st.connected then
      some { st.afterChange [(.workflows, some rows)] [.workflowsChanged] with
        replies := st.replies ++ [patch] }
    else none
  | .patchWorkflows i =>
    st.replies[i]?.map fun patch =>
      { st with
        replies := st.replies.eraseIdx i
        held := st.held.insert .workflows (patch.apply (heldRows st.held .workflows)) }

/-- A notice on its way is about the list. -/
def Announced (s : Slice) : Prop := ∃ e ∈ st.events, e.Concerns s

/-- The held list is what the orchestrator returns, or is going to be. -/
def UpToDate (s : Slice) : Prop :=
  st.Announced s ∨ st.fetches.Settles s (st.held.lookup s) (st.served s)

/-- Connected, and the handler of the last reconnect has run. -/
def Listening : Prop := st.connected = true ∧ .up ∉ st.events

/-- The lists that come on screen without a fetch are up to date. -/
def Opens (new : List Surface) : Prop :=
  st.Listening → ∀ c ∈ new, ∀ s ∈ c.shows st.held, s ∉ st.shown → s ∉ c.onMount st.held →
    st.UpToDate s

/-- The changes of a request to lists on screen are announced. -/
def Announces (writes : List (Slice × Served)) (pushes : List OrchdPush) : Prop :=
  st.Listening → ∀ s ∈ st.shown, (st.afterChange writes pushes).served s ≠ st.served s →
    (∃ p ∈ pushes, p.Concerns s) ∨ st.Announced s ∨ st.fetches.Due s

/-- The handler of the next notice refreshes the lists on screen that it is about, unless they are
up to date without it. -/
def Reaches (e : OrchdEvent) (events : List OrchdEvent) : Prop :=
  { st with events := events }.Listening → ∀ s ∈ st.shown, e.Concerns s → s ∉ st.handler e →
    { st with events := events }.UpToDate s

/-- The further lists that the rows of an answer bring on screen are up to date if held. -/
def Extends (s : Slice) (v : Served) : Prop :=
  st.Listening → ∀ c ∈ st.screen, c.parent = some s → ∀ t ∈ c.children (v.getD []),
    t ∉ st.shown → t ∈ st.held → st.UpToDate t

/-- The app loses no list on screen in this step. -/
def InTouch : ListAction → Prop
  | .change writes pushes => st.Announces writes pushes
  | .deliver => ∀ e ∈ st.events.head?, st.Reaches e st.events.tail
  | .complete s => ∀ answer ∈ (st.fetches.guard s).settle, ∀ v ∈ answer.1, st.Extends s v
  | .setView view => st.Opens (view.roots st.activeProjectId)
  | .openProject p => st.Opens (AppView.project.roots (some p))
  | .mount c => st.Opens [c]
  | .patchWorkflows i =>
    st.Listening → .workflows ∈ st.shown → ∀ patch ∈ st.replies[i]?, st.Announced .workflows ∨
      st.fetches.Settles .workflows (some (patch.apply (heldRows st.held .workflows)))
        (st.served .workflows)
  | _ => True

/-- No fetch, push or notice is on its way. -/
def AtRest : Prop :=
  st.events = [] ∧ st.fetches.invocationsTimer = false ∧
    ∀ e ∈ st.fetches.guards.entries, e.2.inFlight = none

instance (s : Slice) : Decidable (st.Announced s) := inferInstanceAs (Decidable (∃ e ∈ _, _))

instance (s : Slice) : Decidable (st.UpToDate s) := inferInstanceAs (Decidable (_ ∨ _))

instance : Decidable st.Listening := inferInstanceAs (Decidable (_ ∧ _))

instance (new : List Surface) : Decidable (st.Opens new) := inferInstanceAs (Decidable (_ → _))

instance (writes : List (Slice × Served)) (pushes : List OrchdPush) :
    Decidable (st.Announces writes pushes) := inferInstanceAs (Decidable (_ → _))

instance (e : OrchdEvent) (events : List OrchdEvent) : Decidable (st.Reaches e events) :=
  inferInstanceAs (Decidable (_ → _))

instance (s : Slice) (v : Served) : Decidable (st.Extends s v) :=
  inferInstanceAs (Decidable (_ → _))

instance : (a : ListAction) → Decidable (st.InTouch a)
  | .change _ _ => inferInstanceAs (Decidable (st.Announces _ _))
  | .deliver => inferInstanceAs (Decidable (∀ e ∈ _, st.Reaches e _))
  | .complete s =>
    inferInstanceAs (Decidable (∀ answer ∈ (st.fetches.guard s).settle, ∀ v ∈ answer.1, _))
  | .setView _ | .openProject _ | .mount _ => inferInstanceAs (Decidable (st.Opens _))
  | .patchWorkflows i => inferInstanceAs (Decidable (_ → _ → ∀ patch ∈ st.replies[i]?, _))
  | .disconnect | .reconnect | .refresh _ | .fireTimer | .answer _ | .fail _ | .unmount _
  | .saveWorkflow _ _ => isTrue trivial

instance : Decidable st.AtRest := inferInstanceAs (Decidable (_ ∧ _ ∧ _))

variable {st} {s t : Slice}

theorem mem_shown {s : Slice} : s ∈ st.shown ↔ ∃ c ∈ st.screen, s ∈ c.shows st.held :=
  List.mem_flatMap

theorem UpToDate.refreshAll {l : List Slice} (h : st.UpToDate s) : (st.refreshAll l).UpToDate s :=
  h.imp id fun h => h.refreshAll

theorem upToDate_refreshAll {l : List Slice} (h : s ∈ l) : (st.refreshAll l).UpToDate s :=
  .inr (Fetches.settles_refreshAll h)

/-- Surfaces that stay and surfaces that come show nothing out of date. -/
theorem upToDate_enter {screen new : List Surface} (h : ∀ s ∈ st.shown, st.UpToDate s)
    (hscreen : ∀ c ∈ screen, c ∈ st.screen) (hl : st.Listening) (hnew : st.Opens new) :
    ∀ s ∈ (st.enter screen new).shown, (st.enter screen new).UpToDate s := by
  intro s hs
  have hold (h : st.UpToDate s) : (st.enter screen new).UpToDate s := UpToDate.refreshAll h
  obtain ⟨c, hc, hs⟩ := mem_shown.1 hs
  by_cases hshown : s ∈ st.shown
  · exact hold (h s hshown)
  rcases List.mem_append.1 hc with hc | hc
  · exact absurd (mem_shown.2 ⟨c, hscreen c hc, hs⟩) hshown
  · by_cases hmount : s ∈ c.onMount st.held
    · exact upToDate_refreshAll (List.mem_flatMap.2 ⟨c, hc, hmount⟩)
    · exact hold (hnew hl c hc s hs hshown hmount)

theorem Announced.afterChange {writes : List (Slice × Served)} {pushes : List OrchdPush}
    (h : st.Announced s) : (st.afterChange writes pushes).Announced s := by
  obtain ⟨e, he, hs⟩ := h
  refine ⟨e, ?_, hs⟩
  unfold ListState.afterChange
  split_ifs
  · exact List.mem_append_left _ he
  · exact he

theorem announced_afterChange {writes : List (Slice × Served)} {pushes : List OrchdPush}
    {p : OrchdPush} (hconn : st.connected = true) (hp : p ∈ pushes) (hs : p.Concerns s) :
    (st.afterChange writes pushes).Announced s := by
  refine ⟨.push p, ?_, hs⟩
  rw [ListState.afterChange, if_pos hconn]
  exact List.mem_append_right _ (List.mem_map_of_mem hp)

theorem listening_afterChange {writes : List (Slice × Served)} {pushes : List OrchdPush} :
    (st.afterChange writes pushes).Listening ↔ st.Listening := by
  unfold Listening ListState.afterChange
  by_cases h : st.connected = true <;> simp [h]

theorem upToDate_afterChange {writes : List (Slice × Served)} {pushes : List OrchdPush}
    (h : st.UpToDate s) (hl : st.Listening)
    (hnew : (st.afterChange writes pushes).served s ≠ st.served s →
      (∃ p ∈ pushes, p.Concerns s) ∨ st.Announced s ∨ st.fetches.Due s) :
    (st.afterChange writes pushes).UpToDate s := by
  by_cases hs : (st.afterChange writes pushes).served s = st.served s
  · rcases h with h | h
    · exact .inl h.afterChange
    · right
      rw [hs]
      exact h
  · rcases hnew hs with ⟨p, hp, hc⟩ | h | h
    · exact .inl (announced_afterChange hl.1 hp hc)
    · exact .inl h.afterChange
    · exact .inr h.settles

/-- A notice is handled. -/
theorem upToDate_deliver {e : OrchdEvent} {events : List OrchdEvent} (hev : st.events = e :: events)
    (h : st.Listening → ∀ s ∈ st.shown, st.UpToDate s)
    (hreach : st.Reaches e events) (hl : { st with events := events }.Listening) :
    ∀ s ∈ st.shown, ({ st with events := events }.refreshAll (st.handler e)).UpToDate s := by
  intro s hs
  by_cases hmem : s ∈ st.handler e
  · exact upToDate_refreshAll hmem
  refine UpToDate.refreshAll ?_
  by_cases hc : e.Concerns s
  · exact hreach hl s hs hc hmem
  · have hl' : st.Listening := by
      refine ⟨hl.1, fun hup => ?_⟩
      rw [hev] at hup
      rcases List.mem_cons.1 hup with rfl | hup
      · exact hc trivial
      · exact hl.2 hup
    rcases h hl' s hs with ⟨e', he', hs'⟩ | h
    · rw [hev] at he'
      rcases List.mem_cons.1 he' with rfl | he'
      · exact absurd hs' hc
      · exact .inl ⟨e', he', hs'⟩
    · exact .inr h

theorem lookup_setHeld (v : Served) : (st.setHeld s v).lookup s = v := by
  rcases v with _ | rows
  · exact AList.lookup_erase _ _
  · exact AList.lookup_insert _

theorem lookup_setHeld_ne (v : Served) (h : t ≠ s) :
    (st.setHeld s v).lookup t = st.held.lookup t := by
  rcases v with _ | rows
  · exact AList.lookup_erase_ne h
  · exact AList.lookup_insert_ne h

theorem heldRows_setHeld (v : Served) : heldRows (st.setHeld s v) s = v.getD [] := by
  rw [heldRows, lookup_setHeld]

/-- An answer is taken over, or dropped. -/
theorem UpToDate.takeOver {r : Option Served} {g : RefreshGuard Served} (h : st.UpToDate t)
    (hset : (st.fetches.guard s).settle = some (r, g)) : (st.takeOver s r g).UpToDate t := by
  rcases r with _ | v
  · refine h.imp id fun h => Fetches.settles_setGuard h (fun _ h => ?_) fun _ => rfl
    exact RefreshGuard.settles_settle h hset
  · refine UpToDate.refreshAll (h.imp id fun h => Fetches.settles_setGuard h (fun hts h => ?_)
      fun hts => lookup_setHeld_ne v hts)
    have hg : g.Settles v (st.served t) := RefreshGuard.settles_settle h hset
    rwa [hts, lookup_setHeld, ← hts]

/-- A list that the rows of an answer bring on screen follows the list of that answer. -/
theorem mem_children_of_newly_shown {c : Surface} {v : Served} (hc : c ∈ st.screen)
    (ht : t ∈ c.shows (st.setHeld s v)) (hshown : t ∉ st.shown) :
    c.parent = some s ∧ t ∈ c.children (v.getD []) := by
  have hnot (hts : t ∈ c.shows st.held) : False := hshown (mem_shown.2 ⟨c, hc, hts⟩)
  rcases List.mem_append.1 ht with hts | hts
  · exact (hnot (List.mem_append_left _ hts)).elim
  obtain ⟨s', hparent, hts⟩ := Surface.mem_childLists.1 hts
  by_cases hs : s' = s
  · rw [hs, heldRows_setHeld] at hts
    exact ⟨hs ▸ hparent, hts⟩
  · rw [heldRows, lookup_setHeld_ne v hs] at hts
    exact (hnot (List.mem_append_right _ (Surface.mem_childLists.2 ⟨s', hparent, hts⟩))).elim

/-- The lists that the rows of an answer bring on screen are fetched when not held. -/
theorem upToDate_takeOver {r : Option Served} {g : RefreshGuard Served}
    (hset : (st.fetches.guard s).settle = some (r, g)) (h : ∀ t ∈ st.shown, st.UpToDate t)
    (hl : st.Listening) (hext : ∀ v ∈ r, st.Extends s v) :
    ∀ t ∈ (st.takeOver s r g).shown, (st.takeOver s r g).UpToDate t := by
  intro t ht
  by_cases hshown : t ∈ st.shown
  · exact (h t hshown).takeOver hset
  rcases r with _ | v
  · exact absurd ht hshown
  obtain ⟨c, hc, ht⟩ := mem_shown.1 ht
  have hc : c ∈ st.screen := hc
  obtain ⟨hparent, hchild⟩ := mem_children_of_newly_shown hc ht hshown
  have hnot (hts : t ∈ c.shows st.held) : False := hshown (mem_shown.2 ⟨c, hc, hts⟩)
  by_cases hheld : t ∈ st.held
  · exact (hext v rfl hl c hc hparent t hchild hshown hheld).takeOver hset
  have hnew : c.children (heldRows st.held s) ≠ c.children (v.getD []) := by
    intro heq
    rw [← heq] at hchild
    exact hnot (List.mem_append_right _ (Surface.mem_childLists.2 ⟨s, hparent, hchild⟩))
  have hts : t ≠ s := by
    rintro rfl
    exact hnot (List.mem_append_left _ (Surface.parent_mem_lists hparent))
  have habsent : t ∉ st.setHeld s v := by
    rw [← AList.lookup_eq_none, lookup_setHeld_ne v hts, AList.lookup_eq_none]
    exact hheld
  exact upToDate_refreshAll (List.mem_flatMap.2
    ⟨c, hc, Surface.mem_onRows hparent hnew hchild habsent⟩)

/-- What the fetches become keeps every list up to date. -/
theorem upToDate_of_fetches {f : Fetches}
    (hf : st.fetches.Settles s (st.held.lookup s) (st.served s) →
      f.Settles s (st.held.lookup s) (st.served s))
    (h : st.UpToDate s) : { st with fetches := f }.UpToDate s :=
  h.imp id hf

theorem upToDate_answer {g : RefreshGuard Served}
    (hg : (st.fetches.guard s).put (.answered (st.served s)) = some g) (h : st.UpToDate t) :
    { st with fetches := st.fetches.setGuard s g }.UpToDate t := by
  refine upToDate_of_fetches (fun ht => Fetches.settles_setGuard ht (fun hts _ => ?_) fun _ => rfl) h
  rw [hts]
  exact RefreshGuard.settles_answer hg

/-- The held workflows are patched. -/
theorem upToDate_patch {rows : List Row} {replies : List WorkflowPatch}
    (h : st.UpToDate t) (hrows : t = .workflows → st.Announced .workflows ∨
      st.fetches.Settles .workflows (some rows) (st.served .workflows)) :
    { st with replies := replies, held := st.held.insert .workflows rows }.UpToDate t := by
  by_cases ht : t = .workflows
  · subst ht
    refine (hrows rfl).imp id fun h => ?_
    rwa [AList.lookup_insert]
  · refine h.imp id fun h => ?_
    rwa [AList.lookup_insert_ne ht]

theorem shown_patch {rows : List Row} :
    { st with held := st.held.insert .workflows rows }.shown = st.shown := by
  refine List.flatMap_congr fun c _ => ?_
  rcases c <;> simp [Surface.shows, Surface.childLists, Surface.parent, heldRows]

/-- The sidebar stays, and while the app listens what is on screen is up to date. -/
structure Inv (st : ListState) : Prop where
  sidebar : .workspaceSidebar ∈ st.screen
  upToDate : st.Listening → ∀ s ∈ st.shown, st.UpToDate s

theorem inv_init (served : Slice → Served) (connected : Bool) : Inv (init served connected) where
  sidebar := List.mem_cons_self
  upToDate := by
    intro _ s hs
    obtain rfl : s = .projects := by simpa [shown, init, Surface.shows, Surface.lists,
      Surface.childLists, Surface.parent, Surface.children, heldRows, keyless] using hs
    exact .inr (Fetches.settles_refreshAll List.mem_cons_self)

theorem Inv.enter {screen new : List Surface} (h : Inv st) (hscreen : ∀ c ∈ screen, c ∈ st.screen)
    (hsidebar : .workspaceSidebar ∈ screen) (hnew : st.Opens new) :
    Inv (st.enter screen new) where
  sidebar := List.mem_append_left _ hsidebar
  upToDate := fun hl => upToDate_enter (h.upToDate hl) hscreen hl hnew

/-- A view takes the place of another, next to the sidebar. -/
theorem Inv.enterView {new : List Surface} (h : Inv st) (hnew : st.Opens new) :
    Inv (st.enter [.workspaceSidebar] new) :=
  h.enter (by simpa using h.sidebar) (by simp) hnew

theorem Inv.afterChange {writes : List (Slice × Served)} {pushes : List OrchdPush} (h : Inv st)
    (hann : st.Announces writes pushes) : Inv (st.afterChange writes pushes) where
  sidebar := h.sidebar
  upToDate := by
    intro hl s hs
    have hl := listening_afterChange.1 hl
    exact upToDate_afterChange (h.upToDate hl s hs) hl (hann hl s hs)

/-- A change of the workflows is announced with the request that makes it. -/
theorem announces_workflows (rows : List Row) :
    st.Announces [(.workflows, some rows)] [.workflowsChanged] := by
  intro _ s _ hs
  by_cases hw : s = .workflows
  · subst hw
    exact .inl ⟨_, List.mem_cons_self, .inl rfl⟩
  · exact absurd (by simp [ListState.afterChange, Ne.symm hw]) hs

theorem Inv.takeOver {r : Option Served} {g : RefreshGuard Served} (h : Inv st)
    (hset : (st.fetches.guard s).settle = some (r, g)) (hext : ∀ v ∈ r, st.Extends s v) :
    Inv (st.takeOver s r g) := by
  rcases r with _ | v
  · exact ⟨h.sidebar, fun hl => upToDate_takeOver hset (h.upToDate hl) hl hext⟩
  · exact ⟨h.sidebar, fun hl => upToDate_takeOver hset (h.upToDate hl) hl hext⟩

theorem Inv.step {a : ListAction} (h : Inv st) (hc : st.InTouch a) {st' : ListState}
    (hstep : st.step a = some st') : Inv st' := by
  cases a with
  | change writes pushes =>
    obtain rfl := Option.some.inj hstep
    exact h.afterChange hc
  | disconnect =>
    obtain ⟨-, ⟨⟩⟩ := Option.ite_none_right_eq_some.1 hstep
    exact ⟨h.sidebar, fun hl => by simp [Listening] at hl⟩
  | reconnect =>
    obtain ⟨-, ⟨⟩⟩ := Option.ite_none_left_eq_some.1 hstep
    exact ⟨h.sidebar, fun hl => by simp [Listening] at hl⟩
  | deliver =>
    rcases hev : st.events with _ | ⟨e, events⟩
    · simp [ListState.step, hev] at hstep
    · obtain rfl : _ = st' := by simpa [ListState.step, hev] using hstep
      have hreach : st.Reaches e events := by simpa [InTouch, hev] using hc
      exact ⟨h.sidebar, fun hl => upToDate_deliver hev h.upToDate hreach hl⟩
  | refresh s =>
    obtain rfl := Option.some.inj hstep
    exact ⟨h.sidebar, fun hl t ht => (h.upToDate hl t ht).refreshAll⟩
  | fireTimer =>
    obtain ⟨-, ⟨⟩⟩ := Option.ite_none_right_eq_some.1 hstep
    exact ⟨h.sidebar, fun hl t ht =>
      upToDate_of_fetches (fun h => h.fireTimer) (h.upToDate hl t ht)⟩
  | answer s =>
    obtain ⟨-, hstep⟩ := Option.ite_none_right_eq_some.1 hstep
    obtain ⟨g, hg, rfl⟩ := Option.map_eq_some_iff.1 hstep
    exact ⟨h.sidebar, fun hl t ht => upToDate_answer hg (h.upToDate hl t ht)⟩
  | fail s =>
    obtain ⟨hconn, hstep⟩ := Option.ite_none_left_eq_some.1 hstep
    obtain ⟨g, -, rfl⟩ := Option.map_eq_some_iff.1 hstep
    exact ⟨h.sidebar, fun hl => absurd hl.1 hconn⟩
  | complete s =>
    obtain ⟨⟨r, g⟩, hset, rfl⟩ := Option.map_eq_some_iff.1 hstep
    have hext : ∀ v ∈ r, st.Extends s v := hc ⟨r, g⟩ hset
    exact h.takeOver hset hext
  | setView view =>
    obtain ⟨-, ⟨⟩⟩ := Option.ite_none_left_eq_some.1 hstep
    exact Inv.enterView ⟨h.sidebar, h.upToDate⟩ hc
  | openProject p =>
    obtain ⟨-, ⟨⟩⟩ := Option.ite_none_left_eq_some.1 hstep
    exact Inv.enterView ⟨h.sidebar, h.upToDate⟩ hc
  | mount c =>
    obtain ⟨-, ⟨⟩⟩ := Option.ite_none_right_eq_some.1 hstep
    exact h.enter (fun _ => id) h.sidebar hc
  | unmount c =>
    obtain ⟨⟨-, hne, -⟩, ⟨⟩⟩ := Option.ite_none_right_eq_some.1 hstep
    refine ⟨(List.mem_erase_of_ne (Ne.symm hne)).2 h.sidebar, fun hl t ht => h.upToDate hl t ?_⟩
    obtain ⟨c', hc', ht⟩ := mem_shown.1 ht
    exact mem_shown.2 ⟨c', List.mem_of_mem_erase hc', ht⟩
  | saveWorkflow patch rows =>
    obtain ⟨-, ⟨⟩⟩ := Option.ite_none_right_eq_some.1 hstep
    have := h.afterChange (announces_workflows rows)
    exact ⟨this.sidebar, this.upToDate⟩
  | patchWorkflows i =>
    obtain ⟨patch, hpatch, rfl⟩ := Option.map_eq_some_iff.1 hstep
    refine ⟨h.sidebar, fun hl t ht => ?_⟩
    have hshown : t ∈ st.shown := by
      rw [← shown_patch]
      exact ht
    exact upToDate_patch (h.upToDate hl t hshown) fun htw => hc hl (htw ▸ hshown) patch hpatch

/-- While the app listens, no list on screen falls behind. -/
theorem upToDate_run (served : Slice → Served) (connected : Bool) (as : List ListAction)
    (h : Runs.Along step InTouch (init served connected) as) {st : ListState}
    (hr : Runs.run step (init served connected) as = some st) (hl : st.Listening) :
    ∀ s ∈ st.shown, st.UpToDate s :=
  (h.keeps (fun _ _ _ hi hc hs => hi.step hc hs) (inv_init served connected) hr).upToDate hl

theorem AtRest.inFlight (h : st.AtRest) (s : Slice) : (st.fetches.guard s).inFlight = none := by
  rcases hs : st.fetches.guards.lookup s with _ | g
  · simp [Fetches.guard, hs, RefreshGuard.idle]
  · rw [Fetches.guard, hs]
    exact h.2.2 ⟨s, g⟩ (AList.mem_lookup_iff.1 hs)

theorem AtRest.held_eq_served (h : st.AtRest) {s : Slice} (hs : st.UpToDate s) :
    st.held.lookup s = st.served s := by
  rcases hs with ⟨e, he, -⟩ | ⟨-, htimer⟩ | hs
  · rw [h.1] at he
    cases he
  · rw [h.2.1] at htimer
    cases htimer
  · exact RefreshGuard.eq_of_settles hs (h.inFlight s)

/-- In every run whose steps keep the app in touch, each list on screen is what the orchestrator
returns whenever it is connected and nothing is on its way. -/
theorem shown_eq_served (served : Slice → Served) (connected : Bool) (as : List ListAction)
    (h : Runs.Along step InTouch (init served connected) as) {st : ListState}
    (hr : Runs.run step (init served connected) as = some st) (hconn : st.connected = true)
    (hrest : st.AtRest) : ∀ s ∈ st.shown, st.held.lookup s = st.served s := by
  intro s hs
  have hl : st.Listening := ⟨hconn, by simp [hrest.1]⟩
  exact hrest.held_eq_served (upToDate_run served connected as h hr hl s hs)

/-- A push reaches every list it is about, documents that are not held yet apart. -/
theorem reaches_push {p : OrchdPush} {events : List OrchdEvent}
    (h : ∀ s ∈ st.shown, s.docOf.isSome → s.docOf = p.docsOf → s ∈ st.held) :
    st.Reaches (.push p) events := by
  intro _ s hs hc hnot
  refine absurd ?_ hnot
  rcases hc with hc | ⟨hdoc, hp⟩
  · exact OrchdPush.mem_handler_of_target st.held hc
  · refine List.mem_append_right _ (List.mem_filter.2 ⟨AList.mem_keys.1 (h s hs hdoc hp), ?_⟩)
    simp [← hp, hdoc]

/-- The handler of a reconnect refreshes a document or the research runs of an idea if held. -/
theorem mem_onOrchdUp_of_held (h : s ∈ st.held) (hs : s.docOf.isSome ∨ s.isResearchRuns) :
    s ∈ st.onOrchdUp := by
  have hkeys : s ∈ st.held.keys := AList.mem_keys.1 h
  rcases hs with hs | hs <;> simp [onOrchdUp, hkeys, hs]

/-- The handler of a reconnect refreshes what the open project's panel and its tabs show, except
documents and research runs that are not held, and a server's tools. -/
theorem mem_onOrchdUp_of_within {p : String} (hp : st.activeProjectId = some p) {c : Surface}
    (hc : c.within .project (some p) = true) (hs : s ∈ c.lists) :
    s ∈ st.onOrchdUp ∨ (s ∉ st.held ∧ (s.docOf.isSome ∨ s.isResearchRuns)) ∨
      ∃ server, s = .mcpTools server := by
  by_cases hheld : s.docOf.isSome ∨ s.isResearchRuns
  · by_cases h : s ∈ st.held
    · exact .inl (mem_onOrchdUp_of_held h hheld)
    · exact .inr (.inl ⟨h, hheld⟩)
  · simp only [onOrchdUp, hp, List.mem_append, List.mem_cons]
    rcases c <;> grind [Surface.within, Surface.lists, Slice.docOf, Slice.isResearchRuns]

section Outage

/-- One project with one goal. -/
def oneGoal : Slice → Served
  | .projects => some [⟨"p", none, false, "Shop"⟩]
  | .goals _ => some [⟨"g", none, false, "Launch"⟩]
  | _ => some []

def relaunch : List Row := [⟨"g", none, false, "Relaunch"⟩]

/-- The fetches of the lists are answered and taken over. -/
def fetched (l : List Slice) : List ListAction := l.flatMap fun s => [.answer s, .complete s]

/-- The app starts, and the goals change during an outage. -/
def outage (before : List ListAction) (missed : List Slice) : List ListAction :=
  fetched [.projects, .workflows, .goals "p"] ++ before ++
    [.disconnect, .change [(.goals "p", some relaunch)] [.goalsChanged "p"], .reconnect, .deliver,
      .fireTimer] ++
    fetched ([.projects, .mcpServers, .mcpArtifacts, .accounts, .skills, .policies, .invocations,
      .auditRows, .workflows] ++ missed)

/-- An outage that changes the goals of a project whose panel is open. -/
theorem shown_eq_served_openProject :
    ∃ st, Runs.run step (init oneGoal true)
        (outage (.openProject "p" :: fetched [.goals "p", .tasks "p", .ideas, .insights])
          [.goals "p", .tasks "p", .ideas, .insights, .ruleset (some "p"), .graph "p", .docs "p"])
        = some st ∧
      st.held.lookup (.goals "p") = some relaunch ∧
      ∀ s ∈ st.shown, st.held.lookup s = st.served s := by
  obtain ⟨st, hr, hconn, hrest, hgoals⟩ : ∃ st ∈ Runs.run step (init oneGoal true)
      (outage (.openProject "p" :: fetched [.goals "p", .tasks "p", .ideas, .insights])
        [.goals "p", .tasks "p", .ideas, .insights, .ruleset (some "p"), .graph "p", .docs "p"]),
      st.connected = true ∧ st.AtRest ∧ st.held.lookup (.goals "p") = some relaunch := by
    decide +kernel
  exact ⟨st, hr, hgoals, shown_eq_served oneGoal true _ (by decide +kernel) hr hconn hrest⟩

/-- The home view goes on showing the goals from before the outage. -/
theorem homeGoals_stale :
    ¬ ∀ (served : Slice → Served) (connected : Bool) (as : List ListAction) (st : ListState),
      Runs.run step (init served connected) as = some st → st.connected = true → st.AtRest →
        ∀ s ∈ st.shown, st.held.lookup s = st.served s := by
  intro h
  obtain ⟨st, hr, hconn, hrest, s, hs, hne⟩ : ∃ st ∈ Runs.run step (init oneGoal true)
      (outage [] []), st.connected = true ∧ st.AtRest ∧
        ∃ s ∈ st.shown, st.held.lookup s ≠ st.served s := by
    decide +kernel
  exact hne (h oneGoal true _ st hr hconn hrest s hs)

end Outage

end ListState

end BuilderPro
