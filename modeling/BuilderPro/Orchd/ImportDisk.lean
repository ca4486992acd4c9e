import BuilderPro.App.FsExplorer
import BuilderPro.Lib.FileWrites
import BuilderPro.Lib.Runs
import BuilderPro.Orchd.Import

/-!
# The files of an import

`import_bundle` makes the directory of each ruleset and doc while it inserts the rows, checks where
it has got to, and writes the files once the rows are committed.  The paths it writes to have plain
names (`plain_resolveRulesetWritePath`, `plain_resolveDocWritePath`).
-/

namespace BuilderPro

/-- Absolute, and without `..`. -/
def FilePath.Plain (p : FilePath) : Prop := p.absolute = true ∧ p.hasParentDir = false

/-- The file system of an import, with the directories it has made and the files it has written. -/
structure Disk where
  tree : FileTree
  made : List (List String)
  written : List (List String)

namespace Disk

variable (d : Disk)

/-- `mkdir`, and whether the directory is new; `none` if there is nothing to make it in. -/
def mkdir (up : List String) (name : String) : Option (Disk × Bool) :=
  (d.tree.canonicalize (absolutePath up)).map fun p =>
    if h : d.tree.CanInsert (p ++ [name]) then
      ({ d with tree := d.tree.insert (p ++ [name]) .dir h, made := d.made ++ [p ++ [name]] }, true)
    else (d, false)

def isDir (names : List String) : Bool :=
  match d.tree.canonicalize (absolutePath names) with
  | some p => d.tree.node p = some .dir
  | none => false

/-- `create_dir_all`, of a path by its names from the last on, and whether it succeeds. -/
def createDirAll (d : Disk) : List String → Disk × Bool
  | [] => (d, true)
  | name :: up =>
    match d.mkdir up.reverse name with
    | some (d', true) => (d', true)
    | some (_, false) => (d, d.isDir (up.reverse ++ [name]))
    | none =>
      match createDirAll d up with
      | (d', false) => (d', false)
      | (d', true) =>
        match d'.mkdir up.reverse name with
        | some (d'', true) => (d'', true)
        | _ => (d', d'.isDir (up.reverse ++ [name]))

/-- `std::fs::write`: a link is followed, also to a file that is not there yet. -/
def write (names : List String) (content : String) : Option Disk :=
  (d.tree.place d.tree.maxLinks [] (absolutePath names)).bind fun p =>
    if h : d.tree.CanWrite p then
      some { d with
        tree := d.tree.setFile p content.toUTF8.data.toList h
        written := d.written ++ [p] }
    else none

/-- `std::fs::rename`, which follows no link that is a path's last name. -/
def rename (source target : List String) : Option Disk :=
  match source.getLast?, target.getLast? with
  | some a, some b =>
    (d.tree.canonicalize (absolutePath source.dropLast)).bind fun p =>
      (d.tree.canonicalize (absolutePath target.dropLast)).bind fun q =>
        match fsRename d.tree (p ++ [a]) (q ++ [b]) with
        | .ok t => some { d with tree := t, written := d.written ++ [q ++ [b]] }
        | .error _ => none
  | _, _ => none

/-- What follows the making of the directory in `write_atomic`. -/
def stage (path : FilePath) (content : String) : Disk :=
  match d.write path.tmpPathFor.components content with
  | none => d
  | some d' => (d'.rename path.tmpPathFor.components path.components).getD d'

def writeAtomic (path : FilePath) (content : String) : Disk :=
  match path.parent with
  | none => d.stage path content
  | some parent =>
    match d.createDirAll parent.components.reverse with
    | (d', true) => d'.stage path content
    | (d', false) => d'

end Disk

inductive ImportPhase
  | collecting
  | rolledBack
  | committed
  deriving DecidableEq

/-- An import, by the files it makes and has to write. -/
structure FileImport where
  disk : Disk
  phase : ImportPhase
  pending : List PendingRulesetWrite

inductive FileImportAct
  | ruleset (b : RuleSetBundle)
  | doc (b : DocBundle)
  | refuse
  | commit
  | write

namespace FileImport

variable (host : Host) (s : FileImport)

def init (tree : FileTree) : FileImport := ⟨⟨tree, [], []⟩, .collecting, []⟩

/-- The write of a row's text, once its directory is there and inside the daemon's. -/
def pendingWrite (path : FilePath) (content : String) : FileImport :=
  match path.parent with
  | none => { s with phase := .rolledBack }
  | some parent =>
    match s.disk.createDirAll parent.components.reverse with
    | (d, false) => { s with disk := d, phase := .rolledBack }
    | (d, true) =>
      match validatePathWithin d.tree (absolutePath host.appSupport.components)
        (absolutePath parent.components) with
      | .error _ => { s with disk := d, phase := .rolledBack }
      | .ok _ => { s with disk := d, pending := s.pending ++ [⟨path, content⟩] }

def collect (mdContent : Option String) : Except OrchdPersistError FilePath → FileImport
  | .error _ => { s with phase := .rolledBack }
  | .ok path =>
    match mdContent with
    | none => s
    | some content => s.pendingWrite host path content

/-- Rows are inserted as long as the store takes them; the files are written after the commit,
whether or not the ones before were. -/
def step (s : FileImport) : FileImportAct → Option FileImport
  | .ruleset b =>
    if s.phase = .collecting then
      some (s.collect host b.mdContent (resolveRulesetWritePath host b.rule))
    else none
  | .doc b =>
    if s.phase = .collecting then
      some (s.collect host b.mdContent (resolveDocWritePath host b.doc))
    else none
  | .refuse => if s.phase = .collecting then some { s with phase := .rolledBack } else none
  | .commit => if s.phase = .collecting then some { s with phase := .committed } else none
  | .write =>
    match s.phase, s.pending with
    | .committed, w :: ws =>
      some { s with disk := s.disk.writeAtomic w.path w.content, pending := ws }
    | _, _ => none

/-- An import's files lie under `root`. -/
structure Contained (root : List String) (s : FileImport) : Prop where
  plain : ∀ w ∈ s.pending, w.path.Plain
  written : ∀ p ∈ s.disk.written, root <+: p
  made : (∀ p ∈ s.disk.made, root <+: p) ∨ s.phase = .rolledBack ∧ s.disk.written = []

end FileImport

/-! ## The paths -/

/-- A string without a slash is one name, if it is one. -/
theorem join_segment (p : FilePath) {s : String} (hslash : '/' ∉ s.toList) :
    p.join s = ⟨p.absolute, p.components ++ [s].filter fun c => c ≠ "" && c ≠ "."⟩ := by
  have habs : (FilePath.parse s).absolute = false := by
    have hhead : s.toList.head? ≠ some '/' := fun h => hslash (List.mem_of_head? h)
    simpa [FilePath.parse] using hhead
  have hsplit : s.toList.splitOn '/' = [s.toList] := by
    refine List.splitOnP_eq_singleton fun c hc => ?_
    simpa using fun h : c = '/' => hslash (h ▸ hc)
  have hcomps : (FilePath.parse s).components = [s].filter fun c => c ≠ "" && c ≠ "." := by
    rw [FilePath.parse, hsplit]
    simp
  rw [FilePath.join]
  simp [habs, hcomps]

theorem plain_join {p : FilePath} (hp : p.Plain) {s : String} (hslash : '/' ∉ s.toList)
    (hdots : s ≠ "..") : (p.join s).Plain := by
  rw [join_segment p hslash]
  refine ⟨hp.1, ?_⟩
  have hold := hp.2
  simp only [FilePath.hasParentDir, List.any_eq_false, beq_iff_eq] at hold ⊢
  intro c hc
  rcases List.mem_append.1 hc with hc | hc
  · exact hold c hc
  · rw [List.mem_singleton.1 (List.mem_of_mem_filter hc)]
    exact hdots

theorem segment_of_validate {what s : String} (h : validateSegment what s = .ok ()) :
    '/' ∉ s.toList ∧ s ≠ ".." := by
  unfold validateSegment at h
  split at h
  · cases h
  · rename_i hbad
    simp only [Bool.or_eq_true, not_or] at hbad
    obtain ⟨⟨⟨-, hdots⟩, hslash⟩, -⟩ := hbad
    refine ⟨by simpa using hslash, ?_⟩
    rintro rfl
    exact hdots (by decide)

theorem plain_resolveWritePath {host : Host} {what : String} {mdPath path : FilePath}
    {fallback : Except OrchdPersistError FilePath} (hfallback : fallback = .ok path → path.Plain)
    (h : resolveWritePath host what mdPath fallback = .ok path) : path.Plain := by
  unfold resolveWritePath at h
  split_ifs at h with hparent hstarts
  · cases h
    simp only [Bool.and_eq_true] at hstarts
    exact ⟨hstarts.1, by simpa using hparent⟩
  · exact hfallback h

theorem plain_resolveRulesetWritePath {host : Host} (happ : host.appSupport.Plain)
    {rule : RuleSet} {path : FilePath} (h : resolveRulesetWritePath host rule = .ok path) :
    path.Plain := by
  refine plain_resolveWritePath (fun hdefault => ?_) h
  have hrules := plain_join happ (s := "rules") (by decide) (by decide)
  unfold defaultRulesetMdPath at hdefault
  split at hdefault
  · cases hdefault
    exact plain_join hrules (by decide) (by decide)
  · rename_i pid
    obtain ⟨_, hpid, hpath⟩ := Results.bind_eq_ok.1 hdefault
    cases hpath
    obtain ⟨hslash, -⟩ := segment_of_validate hpid
    refine plain_join hrules (by simpa [String.toList_append] using hslash) fun heq => ?_
    simpa [String.toList_append] using congrArg String.toList heq
  · cases hdefault

theorem plain_resolveDocWritePath {host : Host} (happ : host.appSupport.Plain) {doc : Doc}
    {path : FilePath} (h : resolveDocWritePath host doc = .ok path) : path.Plain := by
  refine plain_resolveWritePath (fun hdefault => ?_) h
  obtain ⟨_, hpid, hdefault⟩ := Results.bind_eq_ok.1 hdefault
  obtain ⟨_, hname, hpath⟩ := Results.bind_eq_ok.1 hdefault
  cases hpath
  obtain ⟨hslash, hdots⟩ := segment_of_validate hpid
  obtain ⟨hslash', -⟩ := segment_of_validate hname
  have hdocs := plain_join (plain_join happ (s := "rules") (by decide) (by decide))
    (s := "docs") (by decide) (by decide)
  refine plain_join (plain_join hdocs hslash hdots)
    (by simpa [String.toList_append] using hslash') fun heq => ?_
  have hlast := congrArg (fun s => s.toList.getLast?) heq
  simp [String.toList_append] at hlast

end BuilderPro
