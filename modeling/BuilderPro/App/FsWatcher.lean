import Mathlib.Data.List.Basic
import Mathlib.Tactic.Common

/-!
# Starting and stopping the file watch

`fs_watcher.rs`: a start watches every root it can, puts its debouncer in the slot and emits an
error event for every root it cannot watch.  A start that emits nothing watches every root
(`startWorkspaceWatch_watched`).
-/

namespace BuilderPro

/-- `fs://watch-error`. -/
structure WatchErrorEvent where
  root : String
  reason : String
  deriving DecidableEq, Repr

/-- A root as it was given, and the canonical path it is watched by. -/
structure RootMatcher where
  root : String
  rootPath : List String
  deriving DecidableEq, Repr

/-- What the machine answers while a start runs: an error, or nothing. -/
structure WatchHost where
  ensureRegisteredRoot : String → Option String
  canonicalize : String → Except String (List String)
  newDebouncer : Option String
  watch : List String → Option String

/-- The slot's watch: the start it comes from, and what its debouncer was given to watch and
watches. -/
structure WatchState where
  attempt : ℕ
  matchers : List RootMatcher
  watched : List RootMatcher
  deriving DecidableEq, Repr

section Start

variable (host : WatchHost)

def buildRootMatchers : List String → List RootMatcher × List WatchErrorEvent
  | [] => ([], [])
  | root :: roots =>
    let (out, events) := buildRootMatchers roots
    match host.canonicalize root with
    | .ok rootPath => (⟨root, rootPath⟩ :: out, events)
    | .error e => (out, ⟨root, "cannot watch " ++ root ++ ": " ++ e⟩ :: events)

/-- The `watch` call of each root: what it watches, and the events of the calls that fail. -/
def watchRoots : List RootMatcher → List RootMatcher × List WatchErrorEvent
  | [] => ([], [])
  | m :: ms =>
    let (watched, events) := watchRoots ms
    match host.watch m.rootPath with
    | none => (m :: watched, events)
    | some e => (watched, ⟨m.root, e⟩ :: events)

/-- A debouncer that cannot be made leaves the slot as it is. -/
def startWatchInner (slot : Option WatchState) (attempt : ℕ) (roots : List String) :
    Option WatchState × List WatchErrorEvent :=
  let (matchers, events) := buildRootMatchers host roots
  match host.newDebouncer with
  | none =>
    let (watched, failed) := watchRoots host matchers
    (some ⟨attempt, matchers, watched⟩, events ++ failed)
  | some e => (slot, events ++ roots.map fun root => ⟨root, e⟩)

/-- The roots that are registered, and an event for each of the others. -/
def admitRoots : List String → List String × List WatchErrorEvent
  | [] => ([], [])
  | root :: roots =>
    let (admitted, events) := admitRoots roots
    match host.ensureRegisteredRoot root with
    | none => (root :: admitted, events)
    | some e => (admitted, ⟨root, "refusing to watch an unregistered root: " ++ e⟩ :: events)

def startWorkspaceWatch (slot : Option WatchState) (attempt : ℕ) (roots : List String) :
    Option WatchState × List WatchErrorEvent :=
  let (admitted, refused) := admitRoots host roots
  let (slot, events) := startWatchInner host slot attempt admitted
  (slot, refused ++ events)

end Start

/-- An error of a running watch: its text, and the paths it names. -/
structure NotifyError where
  paths : List (List String)
  message : String
  deriving DecidableEq, Repr

/-- The root whose path a path of the error starts with. -/
def matchedRoot (err : NotifyError) (roots : List RootMatcher) : Option String :=
  err.paths.findSome? fun p => (roots.find? fun m => m.rootPath.isPrefixOf p).map RootMatcher.root

/-- An error of a root, or of every root where none is named. -/
def buildWatchErrorEvents (errors : List NotifyError) (roots : List RootMatcher) :
    List WatchErrorEvent :=
  errors.flatMap fun err =>
    match matchedRoot err roots with
    | some root => [⟨root, err.message⟩]
    | none => roots.map fun m => ⟨m.root, err.message⟩

/-! ## What a start does -/

variable {host : WatchHost} {slot : Option WatchState} {attempt : ℕ} {roots : List String}

theorem admitRoots_sublist (roots : List String) : (admitRoots host roots).1.Sublist roots := by
  induction roots with
  | nil => exact List.Sublist.refl _
  | cons root roots ih =>
    rw [admitRoots]
    rcases host.ensureRegisteredRoot root with _ | e
    · exact ih.cons_cons root
    · exact ih.cons root

theorem admitRoots_silent (h : (admitRoots host roots).2 = []) :
    (admitRoots host roots).1 = roots := by
  induction roots with
  | nil => rfl
  | cons root roots ih =>
    rw [admitRoots] at h ⊢
    rcases he : host.ensureRegisteredRoot root with _ | e
    · rw [he] at h
      exact congrArg _ (ih h)
    · rw [he] at h
      cases h

theorem buildRootMatchers_sublist (roots : List String) :
    ((buildRootMatchers host roots).1.map RootMatcher.root).Sublist roots := by
  induction roots with
  | nil => exact List.Sublist.refl _
  | cons root roots ih =>
    rw [buildRootMatchers]
    rcases host.canonicalize root with e | rootPath
    · exact ih.cons root
    · exact ih.cons_cons root

theorem buildRootMatchers_silent (h : (buildRootMatchers host roots).2 = []) :
    (buildRootMatchers host roots).1.map RootMatcher.root = roots := by
  induction roots with
  | nil => rfl
  | cons root roots ih =>
    rw [buildRootMatchers] at h ⊢
    rcases he : host.canonicalize root with e | rootPath
    · rw [he] at h
      cases h
    · rw [he] at h
      exact congrArg _ (ih h)

theorem watchRoots_sublist (ms : List RootMatcher) : (watchRoots host ms).1.Sublist ms := by
  induction ms with
  | nil => exact List.Sublist.refl _
  | cons m ms ih =>
    rw [watchRoots]
    rcases host.watch m.rootPath with _ | e
    · exact ih.cons_cons m
    · exact ih.cons m

theorem watchRoots_silent {ms : List RootMatcher} (h : (watchRoots host ms).2 = []) :
    (watchRoots host ms).1 = ms := by
  induction ms with
  | nil => rfl
  | cons m ms ih =>
    rw [watchRoots] at h ⊢
    rcases he : host.watch m.rootPath with _ | e
    · rw [he] at h
      exact congrArg _ (ih h)
    · rw [he] at h
      cases h

/-- A start leaves the slot as it is, or puts a watch of its own in it, of roots it was given. -/
theorem startWorkspaceWatch_slot :
    (startWorkspaceWatch host slot attempt roots).1 = slot ∨
      ∃ w, (startWorkspaceWatch host slot attempt roots).1 = some w ∧ w.attempt = attempt ∧
        w.watched.Sublist w.matchers ∧ (w.matchers.map RootMatcher.root).Sublist roots := by
  simp only [startWorkspaceWatch, startWatchInner]
  rcases host.newDebouncer with _ | e
  · exact .inr ⟨_, rfl, rfl, watchRoots_sublist _,
      (buildRootMatchers_sublist _).trans (admitRoots_sublist roots)⟩
  · exact .inl rfl

/-- A start that emits no error watches every root it was given. -/
theorem startWorkspaceWatch_watched (hroots : roots ≠ [])
    (h : (startWorkspaceWatch host slot attempt roots).2 = []) :
    ∃ w, (startWorkspaceWatch host slot attempt roots).1 = some w ∧
      w.watched.map RootMatcher.root = roots := by
  simp only [startWorkspaceWatch, startWatchInner] at h ⊢
  rcases he : host.newDebouncer with _ | e
  · rw [he] at h
    obtain ⟨hlet, h⟩ := List.append_eq_nil_iff.1 h
    obtain ⟨hbuild, hwatch⟩ := List.append_eq_nil_iff.1 h
    refine ⟨_, rfl, ?_⟩
    rw [watchRoots_silent hwatch, buildRootMatchers_silent hbuild, admitRoots_silent hlet]
  · rw [he] at h
    obtain ⟨hlet, h⟩ := List.append_eq_nil_iff.1 h
    obtain ⟨-, hmap⟩ := List.append_eq_nil_iff.1 h
    rw [admitRoots_silent hlet, List.map_eq_nil_iff] at hmap
    exact absurd hmap hroots

/-- Every batch of errors is told, for some root. -/
theorem buildWatchErrorEvents_ne_nil {errors : List NotifyError} {ms : List RootMatcher}
    (herrors : errors ≠ []) (hms : ms ≠ []) : buildWatchErrorEvents errors ms ≠ [] := by
  obtain ⟨err, errors, rfl⟩ := List.exists_cons_of_ne_nil herrors
  rw [buildWatchErrorEvents, List.flatMap_cons]
  rcases matchedRoot err ms with _ | root
  · simp [hms]
  · simp

end BuilderPro
