import BuilderPro.App.DomainLists
import BuilderPro.App.FsWatcher
import BuilderPro.Lib.Slots
import Mathlib.Data.List.Perm.Basic

/-!
# The watch banner

`App.tsx`: an effect starts the watch of the workspace that is shown and stops it when another is,
or none.  The start's own resolution clears the banner and every watch error sets it, each when it
is delivered; so an error that is delivered first is forgotten (`forgotten_error`), and a run in
which none is tells the truth (`banner_honest`).
-/

namespace BuilderPro

/-- A workspace of the store: the object it is, and its roots, which are never empty. -/
structure WorkspaceObject where
  ref : ℕ
  roots : List String
  nonempty : roots ≠ []

/-- The commands on their way, each start with the number of its effect. -/
inductive WatchCommand
  | start (attempt : ℕ) (roots : List String)
  | stop
  deriving DecidableEq, Repr

structure WatchApp where
  view : AppView
  activeWorkspaceId : Option String
  workspaces : String → Option WorkspaceObject
  nextRef : ℕ
  /-- The dependencies the effect last ran with. -/
  deps : AppView × Option WorkspaceObject
  /-- The start of the effect that has not been cleaned up, with its roots. -/
  attempt : Option (ℕ × List String)
  nextAttempt : ℕ
  watchPaused : Bool
  /-- The commands that have not run; they run in order. -/
  queue : List WatchCommand
  slot : Option WatchState
  /-- The start that ran last, unless a stop has run since. -/
  live : Option (ℕ × List String)
  /-- Whether there has been an error since that start. -/
  errored : Bool
  /-- The errors that have not been delivered, each with the start it comes from. -/
  events : List (ℕ × WatchErrorEvent)
  /-- The starts whose promise has not been settled in the webview, and how it will be. -/
  resolutions : List (ℕ × Bool)

namespace WatchApp

def initial : WatchApp where
  view := .home
  activeWorkspaceId := none
  workspaces := fun _ => none
  nextRef := 0
  deps := (.home, none)
  attempt := none
  nextAttempt := 0
  watchPaused := false
  queue := []
  slot := none
  live := none
  errored := false
  events := []
  resolutions := []

variable (s : WatchApp)

def activeWorkspace : Option WorkspaceObject := s.activeWorkspaceId.bind s.workspaces

/-- The workspace on the screen, as it was rendered last. -/
def shown : Option WorkspaceObject := if s.deps.1 = .workspace then s.deps.2 else none

/-- The cleanup of the effect that ran last. -/
def cleanup : WatchApp :=
  match s.attempt with
  | none => s
  | some _ => { s with attempt := none, queue := s.queue ++ [.stop] }

def watchEffect : WatchApp :=
  match s.shown with
  | none => s
  | some ws =>
    { s with
      attempt := some (s.nextAttempt, ws.roots)
      nextAttempt := s.nextAttempt + 1
      queue := s.queue ++ [.start s.nextAttempt ws.roots] }

def setDeps (deps : AppView × Option WorkspaceObject) : WatchApp := { s with deps := deps }

/-- A render runs the effect again when the view or the workspace object is another. -/
def commit : WatchApp :=
  if s.deps.1 = s.view ∧ s.deps.2.map WorkspaceObject.ref
      = s.activeWorkspace.map WorkspaceObject.ref then s
  else (s.cleanup.setDeps (s.view, s.activeWorkspace)).watchEffect

/-- The next command runs. -/
def exec (host : WatchHost) : Option WatchApp :=
  match s.queue with
  | [] => none
  | .stop :: queue =>
    some { s with queue := queue, slot := none, live := none, errored := false }
  | .start n roots :: queue =>
    let (slot, events) := startWorkspaceWatch host s.slot n roots
    some { s with
      queue := queue
      slot := slot
      live := some (n, roots)
      errored := !events.isEmpty
      events := s.events ++ events.map fun e => (n, e)
      resolutions := s.resolutions ++ [(n, true)] }

/-- The next command is a start that is rejected before it runs. -/
def refuse : Option WatchApp :=
  match s.queue with
  | .start n roots :: queue =>
    some { s with
      queue := queue
      live := some (n, roots)
      errored := true
      resolutions := s.resolutions ++ [(n, false)] }
  | _ => none

/-- The debouncer in the slot reports errors. -/
def report (errors : List NotifyError) : Option WatchApp :=
  s.slot.map fun w =>
    { s with
      errored := s.errored || !errors.isEmpty
      events := s.events ++ (buildWatchErrorEvents errors w.matchers).map fun e => (w.attempt, e) }

/-- A root the debouncer in the slot was given is no longer there. -/
def vanished (m : RootMatcher) : Option WatchApp :=
  match s.slot with
  | none => none
  | some w =>
    if m ∈ w.matchers then
      some { s with
        errored := true
        events := s.events ++ [(w.attempt, ⟨m.root,
          "watched root no longer exists: " ++ "/".intercalate m.rootPath⟩)] }
    else none

end WatchApp

inductive WatchStep
  | setView (view : AppView)
  | setActiveWorkspace (id : Option String)
  | upsertWorkspace (id : String) (roots : List String) (nonempty : roots ≠ [])
  | dropWorkspace (id : String)
  | commit
  | exec (host : WatchHost)
  | refuse
  | report (errors : List NotifyError)
  | vanished (m : RootMatcher)
  /-- An error of a debouncer that has been dropped. -/
  | late (attempt : ℕ) (e : WatchErrorEvent)
  /-- The error, or the resolution, at this place is delivered. -/
  | deliver (i : ℕ)
  | resolve (i : ℕ)

namespace WatchApp

def step (s : WatchApp) : WatchStep → Option WatchApp
  | .setView view => some { s with view := view }
  | .setActiveWorkspace id => some { s with activeWorkspaceId := id }
  | .upsertWorkspace id roots nonempty =>
    some { s with
      workspaces := Function.update s.workspaces id (some ⟨s.nextRef, roots, nonempty⟩)
      nextRef := s.nextRef + 1 }
  | .dropWorkspace id => some { s with workspaces := Function.update s.workspaces id none }
  | .commit => some s.commit
  | .exec host => s.exec host
  | .refuse => s.refuse
  | .report errors => s.report errors
  | .vanished m => s.vanished m
  | .late n e =>
    if s.live.map Prod.fst = some n then none else some { s with events := s.events ++ [(n, e)] }
  | .deliver i =>
    (s.events[i]?).map fun _ => { s with events := s.events.eraseIdx i, watchPaused := true }
  | .resolve i =>
    (s.resolutions[i]?).map fun r =>
      { s with
        resolutions := s.resolutions.eraseIdx i
        watchPaused := if s.attempt.map Prod.fst = some r.1 then !r.2 else s.watchPaused }

/-- No start and no stop is on its way. -/
def Idle (s : WatchApp) : Prop := s.queue = [] ∧ s.resolutions = []

/-- The debouncer in the slot watches all of these, and has had no error. -/
def Watches (s : WatchApp) (roots : List String) : Prop :=
  s.errored = false ∧ ∃ w, s.slot = some w ∧ ∀ r ∈ roots, r ∈ w.watched.map RootMatcher.root

/-- Nothing else is watched. -/
def Confined (s : WatchApp) (roots : List String) : Prop :=
  ∀ w, s.slot = some w → ∀ m ∈ w.watched, m.root ∈ roots

/-- An error of the start the effect counts on is delivered only when that start's promise has been
settled. -/
def Orderly (s : WatchApp) : WatchStep → Prop
  | .deliver i => ∀ e, s.events[i]? = some e → s.attempt.map Prod.fst = some e.1 →
    e.1 ∉ s.resolutions.map Prod.fst
  | _ => True

/-! ## The commands on their way -/

/-- From this watch the queue leads to that: each start finds nothing running. -/
def LeadsTo : Option (ℕ × List String) → List WatchCommand → Option (ℕ × List String) → Prop
  | live, [], attempt => live = attempt
  | none, .start n roots :: queue, attempt => LeadsTo (some (n, roots)) queue attempt
  | some _, .stop :: queue, attempt => LeadsTo none queue attempt
  | _, _, _ => False

theorem leadsTo_stop {live : Option (ℕ × List String)} {queue : List WatchCommand}
    {a : ℕ × List String} (h : LeadsTo live queue (some a)) :
    LeadsTo live (queue ++ [.stop]) none := by
  induction queue generalizing live with
  | nil =>
    obtain rfl : live = some a := h
    rfl
  | cons c queue ih =>
    rcases live with _ | l <;> rcases c with ⟨n, roots⟩ | _
    · exact ih h
    · exact h
    · exact h
    · exact ih h

theorem leadsTo_start {live : Option (ℕ × List String)} {queue : List WatchCommand} {n : ℕ}
    {roots : List String} (h : LeadsTo live queue none) :
    LeadsTo live (queue ++ [.start n roots]) (some (n, roots)) := by
  induction queue generalizing live with
  | nil =>
    obtain rfl : live = none := h
    rfl
  | cons c queue ih =>
    rcases live with _ | l <;> rcases c with ⟨m, roots'⟩ | _
    · exact ih h
    · exact h
    · exact h
    · exact ih h

end WatchApp

/-- The number of a start. -/
def WatchCommand.attempt : WatchCommand → Option ℕ
  | .start n _ => some n
  | .stop => none

namespace WatchApp

/-- The starts that have not run, and those whose promise has not been settled. -/
def owed (s : WatchApp) : List ℕ :=
  s.queue.filterMap WatchCommand.attempt ++ s.resolutions.map Prod.fst

/-- An error of this start is on its way, or has set the banner past the start's resolution, or the
start is about to be rejected. -/
def Told (s : WatchApp) (n : ℕ) : Prop :=
  (∃ e ∈ s.events, e.1 = n) ∨ (n ∉ s.resolutions.map Prod.fst ∧ s.watchPaused = true) ∨
    (n, false) ∈ s.resolutions

/-- The commands, the slot and the errors belong together. -/
structure Core (s : WatchApp) : Prop where
  leads : LeadsTo s.live s.queue s.attempt
  stopped : s.live = none → s.slot = none
  confined : ∀ w, s.slot = some w → ∃ roots, s.live = some (w.attempt, roots) ∧
    w.watched.Sublist w.matchers ∧ (w.matchers.map RootMatcher.root).Sublist roots
  rooted : ∀ n roots, .start n roots ∈ s.queue ∨ s.live = some (n, roots) → roots ≠ []
  told : ∀ n roots, s.live = some (n, roots) → s.attempt = some (n, roots) →
    ¬ s.Watches roots → s.Told n
  owedNodup : s.owed.Nodup
  owedLt : ∀ n ∈ s.owed, n < s.nextAttempt
  liveLt : ∀ n roots, s.live = some (n, roots) → n < s.nextAttempt

structure Inv (s : WatchApp) : Prop extends Core s where
  shows : s.attempt.map Prod.snd = s.shown.map WorkspaceObject.roots

theorem inv_initial : initial.Inv where
  leads := rfl
  stopped _ := rfl
  confined _ h := by cases h
  rooted n roots h := by
    rcases h with h | h
    · exact absurd h List.not_mem_nil
    · cases h
  told _ _ h := by cases h
  owedNodup := List.nodup_nil
  owedLt n h := absurd h List.not_mem_nil
  liveLt _ _ h := by cases h
  shows := rfl

variable {s t : WatchApp}

theorem cleanup_attempt : s.cleanup.attempt = none := by
  rw [cleanup]
  split
  · assumption
  · rfl

theorem Core.cleanup (h : s.Core) : s.cleanup.Core := by
  have hleads := h.leads
  rw [WatchApp.cleanup]
  split
  · exact h
  · rename_i a hattempt
    rw [hattempt] at hleads
    have howed : (s.queue ++ [WatchCommand.stop]).filterMap WatchCommand.attempt
        = s.queue.filterMap WatchCommand.attempt := by
      rw [List.filterMap_append]
      exact List.append_nil _
    refine ⟨leadsTo_stop hleads, h.stopped, h.confined, fun n roots hn => ?_,
      fun _ _ _ hnone => (by cases hnone), ?_, ?_, h.liveLt⟩
    · rcases hn with hn | hn
      · rcases List.mem_append.1 hn with hn | hn
        · exact h.rooted n roots (.inl hn)
        · cases List.mem_singleton.1 hn
      · exact h.rooted n roots (.inr hn)
    · rw [owed, howed]
      exact h.owedNodup
    · rw [owed, howed]
      exact h.owedLt

theorem Core.setDeps (h : s.Core) (deps : AppView × Option WorkspaceObject) :
    (s.setDeps deps).Core :=
  ⟨h.leads, h.stopped, h.confined, h.rooted, h.told, h.owedNodup, h.owedLt, h.liveLt⟩

/-- The effect's start is behind the stop of the one before. -/
theorem inv_watchEffect (h : s.Core) (hnone : s.attempt = none) : s.watchEffect.Inv := by
  have hleads := h.leads
  rw [hnone] at hleads
  rw [watchEffect]
  split
  · rename_i hshown
    exact ⟨h, by rw [hnone, hshown]; rfl⟩
  · rename_i ws hshown
    have howed : List.Perm ((s.queue ++ [WatchCommand.start s.nextAttempt ws.roots]).filterMap
        WatchCommand.attempt ++ s.resolutions.map Prod.fst) (s.nextAttempt :: s.owed) := by
      rw [List.filterMap_append, List.append_assoc]
      exact List.perm_middle
    refine ⟨⟨leadsTo_start hleads, h.stopped, h.confined, fun n roots hn => ?_,
      fun n roots hlive hattempt => ?_, ?_, fun n hn => ?_, fun n roots hlive => ?_⟩, ?_⟩
    · rcases hn with hn | hn
      · rcases List.mem_append.1 hn with hn | hn
        · exact h.rooted n roots (.inl hn)
        · cases List.mem_singleton.1 hn
          exact ws.nonempty
      · exact h.rooted n roots (.inr hn)
    · -- the watch that runs is an older one
      have hlt := h.liveLt n roots hlive
      cases hattempt
      exact absurd hlt (Nat.lt_irrefl _)
    · refine howed.nodup_iff.2 (List.nodup_cons.2 ⟨fun hin => ?_, h.owedNodup⟩)
      exact absurd (h.owedLt _ hin) (Nat.lt_irrefl _)
    · show n < s.nextAttempt + 1
      rcases List.mem_cons.1 (howed.mem_iff.1 hn) with rfl | hn
      · omega
      · have := h.owedLt n hn
        omega
    · have := h.liveLt n roots hlive
      show n < s.nextAttempt + 1
      omega
    · exact (congrArg (Option.map WorkspaceObject.roots) hshown).symm

theorem inv_commit (h : s.Inv) : s.commit.Inv := by
  rw [commit]
  split_ifs with hdeps
  · exact h
  · exact inv_watchEffect (h.toCore.cleanup.setDeps _) cleanup_attempt

theorem inv_stop {queue : List WatchCommand} (h : s.Inv) (hqueue : s.queue = .stop :: queue) :
    ({ s with queue := queue, slot := none, live := none, errored := false } : WatchApp).Inv := by
  have hleads := h.leads
  rw [hqueue] at hleads
  have howed : queue.filterMap WatchCommand.attempt ++ s.resolutions.map Prod.fst = s.owed := by
    rw [owed, hqueue]
    rfl
  refine ⟨⟨?_, fun _ => rfl, fun _ hw => (by cases hw), fun n roots hn => ?_,
    fun _ _ hlive => (by cases hlive), ?_, ?_, fun _ _ hlive => (by cases hlive)⟩, h.shows⟩
  · rcases hlive : s.live with _ | l
    · rw [hlive] at hleads
      exact hleads.elim
    · rw [hlive] at hleads
      exact hleads
  · rcases hn with hn | hn
    · exact h.rooted n roots (.inl (hqueue ▸ List.mem_cons_of_mem _ hn))
    · cases hn
  · show (queue.filterMap WatchCommand.attempt ++ s.resolutions.map Prod.fst).Nodup
    rw [howed]
    exact h.owedNodup
  · show ∀ n ∈ queue.filterMap WatchCommand.attempt ++ s.resolutions.map Prod.fst, _
    rw [howed]
    exact h.owedLt

/-- A start that has run, or been rejected: its errors and how its promise will be settled. -/
theorem inv_start {n : ℕ} {roots : List String} {queue : List WatchCommand} (h : s.Inv)
    (hqueue : s.queue = .start n roots :: queue) {slot : Option WatchState} {errored : Bool}
    {events : List (ℕ × WatchErrorEvent)} {ok : Bool}
    (hslot : ∀ w, slot = some w → w.attempt = n ∧ w.watched.Sublist w.matchers ∧
      (w.matchers.map RootMatcher.root).Sublist roots)
    (htold : ¬ ({ s with slot := slot, errored := errored } : WatchApp).Watches roots →
      (∃ e ∈ events, e.1 = n) ∨ ok = false) :
    ({ s with
      queue := queue
      slot := slot
      live := some (n, roots)
      errored := errored
      events := s.events ++ events
      resolutions := s.resolutions ++ [(n, ok)] } : WatchApp).Inv := by
  have hleads := h.leads
  rw [hqueue] at hleads
  have hmem : WatchCommand.start n roots ∈ s.queue := hqueue ▸ List.mem_cons_self
  have howed : List.Perm (queue.filterMap WatchCommand.attempt
      ++ (s.resolutions ++ [(n, ok)]).map Prod.fst) s.owed := by
    rw [owed, hqueue, List.map_append, ← List.append_assoc]
    exact List.perm_append_singleton n _
  have hn : n ∈ s.owed := by
    rw [owed, hqueue]
    exact List.mem_cons_self
  refine ⟨⟨?_, fun hlive => (by cases hlive), fun w hw => ?_, fun m rs hm => ?_,
    fun m rs hlive hattempt hbad => ?_, howed.nodup_iff.2 h.owedNodup,
    fun m hm => h.owedLt m (howed.mem_iff.1 hm), fun m rs hlive => ?_⟩, h.shows⟩
  · rcases hlive : s.live with _ | l
    · rw [hlive] at hleads
      exact hleads
    · rw [hlive] at hleads
      exact hleads.elim
  · obtain ⟨hattempt, hwatched, hmatchers⟩ := hslot w hw
    exact ⟨roots, by rw [hattempt], hwatched, hmatchers⟩
  · rcases hm with hm | hm
    · exact h.rooted m rs (.inl (hqueue ▸ List.mem_cons_of_mem _ hm))
    · cases hm
      exact h.rooted n roots (.inl hmem)
  · cases hlive
    rcases htold hbad with ⟨e, he, hen⟩ | rfl
    · exact .inl ⟨e, List.mem_append_right _ he, hen⟩
    · exact .inr (.inr (List.mem_append_right _ List.mem_cons_self))
  · cases hlive
    exact h.owedLt n hn

/-- A start that is about to run finds the slot empty. -/
theorem slot_of_start {n : ℕ} {roots : List String} {queue : List WatchCommand} (h : s.Inv)
    (hqueue : s.queue = .start n roots :: queue) : s.slot = none := by
  have hleads := h.leads
  rw [hqueue] at hleads
  refine h.stopped ?_
  rcases hlive : s.live with _ | l
  · rfl
  · rw [hlive] at hleads
    exact hleads.elim

theorem inv_exec {host : WatchHost} (h : s.Inv) (ht : s.exec host = some t) : t.Inv := by
  rw [exec] at ht
  split at ht
  · cases ht
  · rename_i queue hqueue
    cases ht
    exact inv_stop h hqueue
  · rename_i n roots queue hqueue
    have hnone := slot_of_start h hqueue
    have hroots := h.rooted n roots (.inl (hqueue ▸ List.mem_cons_self))
    have hslot := @startWorkspaceWatch_slot host s.slot n roots
    have hwatched := @startWorkspaceWatch_watched host s.slot n roots hroots
    rcases hstart : startWorkspaceWatch host s.slot n roots with ⟨slot, events⟩
    rw [hstart, hnone] at hslot
    rw [hstart] at hwatched ht
    cases ht
    refine inv_start h hqueue (fun w hw => ?_) fun hbad => .inl ?_
    · rcases hslot with hkept | ⟨w', hw', hrest⟩
      · cases hkept.symm.trans hw
      · cases hw'.symm.trans hw
        exact hrest
    · rcases events with _ | ⟨e, es⟩
      · obtain ⟨w, hw, hroots⟩ := hwatched rfl
        exact absurd ⟨rfl, w, hw, fun r hr => hroots ▸ hr⟩ hbad
      · exact ⟨(n, e), List.mem_cons_self, rfl⟩

theorem inv_refuse (h : s.Inv) (ht : s.refuse = some t) : t.Inv := by
  rw [refuse] at ht
  split at ht
  · rename_i n roots queue hqueue
    cases ht
    have hnone := slot_of_start h hqueue
    have := @inv_start s n roots queue h hqueue s.slot true [] false (fun w hw => by
      rw [hnone] at hw
      cases hw) fun _ => .inr rfl
    rwa [List.append_nil] at this
  · cases ht

/-- Errors are put on their way: one of them is of the watch that runs, if they are its first. -/
theorem inv_push {errored : Bool} {events : List (ℕ × WatchErrorEvent)} (h : s.Inv)
    (hfirst : ∀ n roots, s.live = some (n, roots) → s.Watches roots → errored = true →
      ∃ e ∈ events, e.1 = n) :
    ({ s with errored := errored, events := s.events ++ events } : WatchApp).Inv := by
  refine ⟨⟨h.leads, h.stopped, h.confined, h.rooted, fun n roots hlive hattempt hbad => ?_,
    h.owedNodup, h.owedLt, h.liveLt⟩, h.shows⟩
  by_cases hwatches : s.Watches roots
  · rcases herrored : errored with _ | _
    · exact absurd ⟨herrored, hwatches.2⟩ hbad
    · obtain ⟨e, he, hn⟩ := hfirst n roots hlive hwatches herrored
      exact .inl ⟨e, List.mem_append_right _ he, hn⟩
  · rcases h.told n roots hlive hattempt hwatches with ⟨e, he, hn⟩ | htold
    · exact .inl ⟨e, List.mem_append_left _ he, hn⟩
    · exact .inr htold

theorem inv_report {errors : List NotifyError} (h : s.Inv) (ht : s.report errors = some t) :
    t.Inv := by
  obtain ⟨w, hw, rfl⟩ := Option.map_eq_some_iff.1 ht
  obtain ⟨roots, hlive, hwatched, -⟩ := h.confined w hw
  refine inv_push h fun n roots' hlive' hwatches herrored => ?_
  rw [hlive] at hlive'
  cases hlive'
  obtain ⟨hclean, w', hw', hall⟩ := hwatches
  cases hw.symm.trans hw'
  have herrors : errors ≠ [] := by
    rintro rfl
    rw [hclean] at herrored
    cases herrored
  have hmatchers : w.matchers ≠ [] := by
    obtain ⟨r, hr⟩ := List.exists_mem_of_ne_nil _ (h.rooted _ roots (.inr hlive))
    obtain ⟨m, hm, -⟩ := List.mem_map.1 (hall r hr)
    exact List.ne_nil_of_mem (hwatched.subset hm)
  obtain ⟨e, he⟩ := List.exists_mem_of_ne_nil _ (buildWatchErrorEvents_ne_nil herrors hmatchers)
  exact ⟨(w.attempt, e), List.mem_map_of_mem he, rfl⟩

theorem inv_vanished {m : RootMatcher} (h : s.Inv) (ht : s.vanished m = some t) : t.Inv := by
  rw [vanished] at ht
  split at ht
  · cases ht
  · rename_i w hw
    split_ifs at ht
    cases ht
    obtain ⟨roots, hlive, -⟩ := h.confined w hw
    refine inv_push h fun n roots' hlive' _ _ => ⟨_, List.mem_cons_self, ?_⟩
    rw [hlive] at hlive'
    cases hlive'
    rfl

/-- An error that is delivered sets the banner: past the resolution of its start it stays set. -/
theorem inv_deliver {i : ℕ} (h : s.Inv) (hord : s.Orderly (.deliver i))
    (ht : s.step (.deliver i) = some t) : t.Inv := by
  obtain ⟨e, he, rfl⟩ := Option.map_eq_some_iff.1 ht
  refine ⟨⟨h.leads, h.stopped, h.confined, h.rooted, fun n roots hlive hattempt hbad => ?_,
    h.owedNodup, h.owedLt, h.liveLt⟩, h.shows⟩
  rcases h.told n roots hlive hattempt hbad with ⟨e', he', hn⟩ | ⟨hsettled, -⟩ | hrejected
  · by_cases hsame : e.1 = n
    · have hcurrent : s.attempt.map Prod.fst = some e.1 := by
        have hattempt : s.attempt = some (n, roots) := hattempt
        rw [hattempt, hsame, Option.map_some]
      exact .inr (.inl ⟨hsame ▸ hord e he hcurrent, rfl⟩)
    · have hne : e' ≠ e := by
        rintro rfl
        exact hsame hn
      exact .inl ⟨e', Slots.mem_eraseIdx_of_ne he he' hne, hn⟩
  · exact .inr (.inl ⟨hsettled, rfl⟩)
  · exact .inr (.inr hrejected)

theorem owed_eraseIdx (i : ℕ) :
    (s.queue.filterMap WatchCommand.attempt ++ (s.resolutions.eraseIdx i).map Prod.fst).Sublist
      s.owed :=
  (List.Sublist.refl _).append ((List.eraseIdx_sublist _ i).map _)

/-- A start is settled once. -/
theorem resolution_unique (h : s.Inv) {i : ℕ} {r : ℕ × Bool} (hr : s.resolutions[i]? = some r) :
    r.1 ∉ (s.resolutions.eraseIdx i).map Prod.fst ∧
      ∀ ok, (r.1, ok) ∈ s.resolutions → ok = r.2 := by
  have hnodup : (s.resolutions.map Prod.fst).Nodup :=
    h.owedNodup.sublist (List.sublist_append_right _ _)
  have hone : r.1 ∉ (s.resolutions.eraseIdx i).map Prod.fst := by
    obtain ⟨hi, hget⟩ := List.getElem?_eq_some_iff.1 hr
    have hperm := (List.getElem_cons_eraseIdx_perm hi).map Prod.fst
    rw [hget] at hperm
    exact (List.nodup_cons.1 (hperm.nodup_iff.2 hnodup)).1
  refine ⟨hone, fun ok hok => ?_⟩
  by_contra hne
  refine hone (List.mem_map.2 ⟨(r.1, ok), Slots.mem_eraseIdx_of_ne hr hok ?_, rfl⟩)
  intro heq
  exact hne (congrArg Prod.snd heq)

theorem inv_resolve {i : ℕ} (h : s.Inv) (ht : s.step (.resolve i) = some t) : t.Inv := by
  obtain ⟨r, hr, rfl⟩ := Option.map_eq_some_iff.1 ht
  obtain ⟨hone, hsame⟩ := resolution_unique h hr
  have howed := @owed_eraseIdx s i
  refine ⟨⟨h.leads, h.stopped, h.confined, h.rooted, fun n roots hlive hattempt hbad => ?_,
    howed.nodup h.owedNodup, fun n hn => h.owedLt n (howed.subset hn), h.liveLt⟩, h.shows⟩
  have hattempt' : s.attempt.map Prod.fst = some n := by
    have hattempt : s.attempt = some (n, roots) := hattempt
    rw [hattempt, Option.map_some]
  by_cases hn : r.1 = n
  · subst hn
    by_cases hok : r.2 = false
    · refine .inr (.inl ⟨hone, ?_⟩)
      show (if s.attempt.map Prod.fst = some r.1 then !r.2 else s.watchPaused) = true
      rw [if_pos hattempt', hok]
      rfl
    · rcases h.told _ roots hlive hattempt hbad with htold | ⟨hsettled, -⟩ | hrejected
      · exact .inl htold
      · exact absurd (List.mem_map_of_mem (List.mem_of_getElem? hr)) hsettled
      · exact absurd (hsame false hrejected).symm hok
  · rcases h.told n roots hlive hattempt hbad with htold | ⟨hsettled, hpaused⟩ | hrejected
    · exact .inl htold
    · refine .inr (.inl ⟨fun hmem => hsettled ?_, ?_⟩)
      · exact ((List.eraseIdx_sublist _ i).map Prod.fst).subset hmem
      · show (if s.attempt.map Prod.fst = some r.1 then !r.2 else s.watchPaused) = true
        rw [if_neg fun heq => hn (Option.some.inj (heq.symm.trans hattempt')), hpaused]
    · refine .inr (.inr (Slots.mem_eraseIdx_of_ne hr hrejected ?_))
      rintro rfl
      exact hn rfl

theorem inv_step {a : WatchStep} (h : s.Inv) (hord : s.Orderly a) (ht : s.step a = some t) :
    t.Inv := by
  cases a with
  | commit =>
    cases ht
    exact inv_commit h
  | exec host => exact inv_exec h ht
  | refuse => exact inv_refuse h ht
  | report errors => exact inv_report h ht
  | vanished m => exact inv_vanished h ht
  | deliver i => exact inv_deliver h hord ht
  | resolve i => exact inv_resolve h ht
  | late n e =>
    rw [step] at ht
    split_ifs at ht
    cases ht
    exact inv_push h fun n roots _ hwatches herrored => by
      rw [hwatches.1] at herrored
      cases herrored
  | _ =>
    -- the store, the view and the selection: nothing of the watch
    cases ht
    exact ⟨⟨h.leads, h.stopped, h.confined, h.rooted, h.told, h.owedNodup, h.owedLt, h.liveLt⟩,
      h.shows⟩

/-- With nothing on its way, what ran last is the start of the workspace on the screen. -/
theorem live_of_idle (h : s.Inv) (hidle : s.Idle) {ws : WorkspaceObject}
    (hshown : s.shown = some ws) : ∃ n, s.live = some (n, ws.roots) ∧ s.attempt = s.live := by
  have hleads := h.leads
  have hshows := h.shows
  rw [hidle.1] at hleads
  have hleads : s.live = s.attempt := by
    rcases hlive : s.live with _ | l <;> rw [hlive] at hleads <;> exact hleads
  rw [hshown, Option.map_some, Option.map_eq_some_iff] at hshows
  obtain ⟨⟨n, roots⟩, hattempt, rfl⟩ := hshows
  exact ⟨n, hleads.trans hattempt, hleads.symm⟩

/-- In every run in which no error of the current start is delivered before that start's promise
has been settled: whenever no start or stop is on its way and a workspace is shown, nothing outside
it is watched, and the banner is off only if all its roots are watched without an error or an error
is still on its way. -/
theorem banner_honest (as : List WatchStep) (hord : Runs.Along step Orderly initial as)
    {s : WatchApp} (hrun : Runs.run step initial as = some s) (hidle : s.Idle)
    {ws : WorkspaceObject} (hshown : s.shown = some ws) :
    s.Confined ws.roots ∧ (s.watchPaused = false →
      s.Watches ws.roots ∨ ∃ e ∈ s.events, s.live.map Prod.fst = some e.1) := by
  have h : s.Inv := hord.keeps (fun _ _ _ hs hc ht => inv_step hs hc ht) inv_initial hrun
  obtain ⟨n, hlive, hattempt⟩ := live_of_idle h hidle hshown
  refine ⟨fun w hw m hm => ?_, fun hoff => ?_⟩
  · obtain ⟨roots, hlive', hwatched, hmatchers⟩ := h.confined w hw
    rw [hlive] at hlive'
    cases hlive'
    exact hmatchers.subset (List.mem_map_of_mem (hwatched.subset hm))
  · by_cases hwatches : s.Watches ws.roots
    · exact .inl hwatches
    · rcases h.told n ws.roots hlive (hattempt.trans hlive) hwatches with
        ⟨e, he, hn⟩ | ⟨-, hpaused⟩ | hrejected
      · exact .inr ⟨e, he, by rw [hlive, Option.map_some, hn]⟩
      · rw [hoff] at hpaused
        cases hpaused
      · rw [hidle.2] at hrejected
        exact absurd hrejected List.not_mem_nil

/-- A machine on which everything is registered, and a root that is not there. -/
def hostWithout (root : String) : WatchHost where
  ensureRegisteredRoot _ := none
  canonicalize r := if r = root then .error "No such file or directory" else .ok [r]
  newDebouncer := none
  watch _ := none

/-- A workspace is opened on that machine and its start runs. -/
def openWorkspace (root : String) : List WatchStep :=
  [.upsertWorkspace "w" ["/a"] (by decide), .setActiveWorkspace (some "w"), .setView .workspace,
    .commit, .exec (hostWithout root)]

/-- What decides the banner's truth. -/
structure Outcome where
  watchPaused : Bool
  queue : List WatchCommand
  resolutions : List (ℕ × Bool)
  events : List (ℕ × WatchErrorEvent)
  watched : Option (List RootMatcher)
  shown : Option (List String)
  deriving DecidableEq

def outcome (s : WatchApp) : Outcome :=
  ⟨s.watchPaused, s.queue, s.resolutions, s.events, s.slot.map WatchState.watched,
    s.shown.map WorkspaceObject.roots⟩

theorem banner_honest_opened : ∃ s ws,
    Runs.run step initial (openWorkspace "/b" ++ [.resolve 0, .report [⟨[], "gone"⟩]]) = some s ∧
      s.shown = some ws ∧ s.Confined ws.roots ∧ (s.watchPaused = false →
        s.Watches ws.roots ∨ ∃ e ∈ s.events, s.live.map Prod.fst = some e.1) := by
  have hrun : (Runs.run step initial
      (openWorkspace "/b" ++ [.resolve 0, .report [⟨[], "gone"⟩]])).map outcome
        = some ⟨false, [], [], [(0, ⟨"/a", "gone"⟩)], some [⟨"/a", ["/a"]⟩], some ["/a"]⟩ := by
    decide +kernel
  obtain ⟨s, hs, hout⟩ := Option.map_eq_some_iff.1 hrun
  simp only [outcome, Outcome.mk.injEq, Option.map_eq_some_iff] at hout
  obtain ⟨-, hqueue, hresolutions, -, -, ws, hws, -⟩ := hout
  have hord : Runs.Along step Orderly initial
      (openWorkspace "/b" ++ [.resolve 0, .report [⟨[], "gone"⟩]]) :=
    fun _ _ => ⟨trivial, fun _ _ => ⟨trivial, fun _ _ => ⟨trivial, fun _ _ => ⟨trivial,
      fun _ _ => ⟨trivial, fun _ _ => ⟨trivial, fun _ _ => ⟨trivial, trivial⟩⟩⟩⟩⟩⟩⟩
  exact ⟨s, ws, hs, hws, banner_honest _ hord hs ⟨hqueue, hresolutions⟩ hws⟩

/-- The error of a root that is not there is delivered before the start's promise is settled:
nothing is on its way, the banner is off and the root is not watched. -/
theorem forgotten_error : ∃ s ws,
    Runs.run step initial (openWorkspace "/a" ++ [.deliver 0, .resolve 0]) = some s ∧
      s.Idle ∧ s.events = [] ∧ s.shown = some ws ∧ s.watchPaused = false ∧
      ¬ s.Watches ws.roots := by
  have hrun : (Runs.run step initial
      (openWorkspace "/a" ++ [.deliver 0, .resolve 0])).map outcome
        = some ⟨false, [], [], [], some [], some ["/a"]⟩ := by
    decide +kernel
  obtain ⟨s, hs, hout⟩ := Option.map_eq_some_iff.1 hrun
  simp only [outcome, Outcome.mk.injEq, Option.map_eq_some_iff] at hout
  obtain ⟨hoff, hqueue, hresolutions, hevents, ⟨w, hw, hnone⟩, ws, hws, hroots⟩ := hout
  refine ⟨s, ws, hs, ⟨hqueue, hresolutions⟩, hevents, hws, hoff, ?_⟩
  rintro ⟨-, w', hw', hall⟩
  cases hw.symm.trans hw'
  have := hall "/a" (by rw [hroots]; exact List.mem_cons_self)
  rw [hnone] at this
  exact absurd this List.not_mem_nil

end WatchApp

end BuilderPro
