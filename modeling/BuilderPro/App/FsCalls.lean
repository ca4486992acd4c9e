import BuilderPro.App.FilePreview

/-!
# What the file commands touch

A command of the file explorer looks at its root and its paths before it calls the file system, the
Trash or the opener.  What it calls them with, and what changes, lies in its root and in a
registered one, links resolved, and a root in no registered one is refused before any call
(`calls_contained`).  Only the walker of `list_dir` reads files above the root.
-/

namespace BuilderPro

/-- The `.gitignore` files that the walker of `visible_child_names` reads for a directory. -/
abbrev Walker := FileTree → List String → List (List String)

/-- A call, and the paths it is made with. -/
inductive FsCall
  | readDir (dir : List String)
  | walk (dir : List String)
  | readFile (path : List String)
  | createNew (target : List String)
  | createDir (target : List String)
  | rename (source target : List String)
  | trash (target : List String)
  | reveal (target : List String)
  | openWith (target : List String)
  deriving DecidableEq

namespace FsCall

/-- What a call acts on that is there. -/
def existing : FsCall → List (List String)
  | .readDir dir | .walk dir => [dir]
  | .readFile path => [path]
  | .createNew _ | .createDir _ => []
  | .rename source _ => [source]
  | .trash target | .reveal target | .openWith target => [target]

/-- What a call makes. -/
def new : FsCall → List (List String)
  | .createNew target | .createDir target | .rename _ target => [target]
  | _ => []

/-- What a call reads. -/
def reads (walker : Walker) (s : FileTree) : FsCall → List (List String)
  | .readDir dir => [dir]
  | .walk dir => walker s dir
  | .readFile path => [path]
  | _ => []

end FsCall

/-- A new entry, unless there is one. -/
def makeEntry (s : FileTree) (target : List String) (n : FileNode) : Except IoError FileTree :=
  if h : s.CanInsert target then .ok (s.insert target n h)
  else if s.node target.dropLast = some .dir then .error (.other "File exists (os error 17)")
  else .error (.other "Not a directory (os error 20)")

/-- What a call makes of the tree. -/
def FsCall.perform (s : FileTree) : FsCall → Except FsError FileTree
  | .createNew target => (makeEntry s target (.file [])).mapError mapIoError
  | .createDir target => (makeEntry s target .dir).mapError mapIoError
  | .rename source target => (fsRename s source target).mapError mapIoError
  | .trash target => (trashDelete s target).mapError .io
  | _ => .ok s

/-- The commands of the explorer and their further arguments. -/
inductive FsCommand
  | listDir (rel : PathBuf)
  | readFilePreview (rel : PathBuf)
  | createFile (relDir : PathBuf) (name : String)
  | createDir (relDir : PathBuf) (name : String)
  | renameEntry (rel : PathBuf) (newName : String)
  | moveEntry (relFrom relDirTo : PathBuf)
  | deleteEntry (rel : PathBuf)
  | revealInFinder (rel : PathBuf)
  | openExternal (rel : PathBuf)

/-- The calls of the `_inner` functions, whose errors before them are those of their checks. -/
def FsCommand.inner (s : FileTree) (root : PathBuf) : FsCommand → Except FsError (List FsCall)
  | .listDir rel => do
    let dir ← validatedExisting s root rel
    if s.node dir = some .dir then return [.readDir dir, .walk dir] else .error .notFound
  | .readFilePreview rel => do
    let path ← validatedExisting s root rel
    match s.node path with
    | none => .error .notFound
    | some .dir => .error (.io "cannot preview a directory")
    | some (.link _) => .error (.io "not a regular file")
    | some (.file content) => return if previewCap < content.length then [] else [.readFile path]
  | .createFile relDir name => do
    let target ← validatedNew s root relDir name
    return [.createNew target]
  | .createDir relDir name => do
    let target ← validatedNew s root relDir name
    return [.createDir target]
  | .renameEntry rel newName => do
    let source ← validatedExistingNonRoot s root rel
    let target ← validatedNew s root ((pathParent rel).getD []) newName
    if targetExists s target then .error .alreadyExists else return [.rename source target]
  | .moveEntry relFrom relDirTo => do
    let source ← validatedExistingNonRoot s root relFrom
    let name ← match source.getLast? with
      | some name => .ok name
      | none => .error .outsideRoot
    let target ← validatedNew s root relDirTo name
    if targetExists s target then .error .alreadyExists else return [.rename source target]
  | .deleteEntry rel => do
    let target ← validatedExistingNonRoot s root rel
    return [.trash target]
  | .revealInFinder rel => do
    let target ← validatedExisting s root rel
    return [.reveal target]
  | .openExternal rel => do
    let target ← validatedExisting s root rel
    return [.openWith target]

/-- The calls of a command, behind the gate of the registered roots. -/
def FsCommand.calls (s : FileTree) (slot : WorkspaceRootsCache) (root : PathBuf) (c : FsCommand) :
    Except FsError (List FsCall) := do
  ensureFsRoot s slot root
  c.inner s root

/-- The destructive verbs are commands. -/
def FsVerb.command (rel : PathBuf) : FsVerb → FsCommand
  | .delete => .deleteEntry rel
  | .rename newName => .renameEntry rel newName
  | .move relDirTo => .moveEntry rel relDirTo

/-- The calls, one after another until one fails. -/
def FsCommand.run (s : FileTree) (slot : WorkspaceRootsCache) (root : PathBuf) (c : FsCommand) :
    Except FsError FileTree := do
  let cs ← c.calls s slot root
  cs.foldlM FsCall.perform s

/-- In the root, and in a registered one. -/
structure Inside (s : FileTree) (slot : WorkspaceRootsCache) (root : PathBuf) (p : List String) :
    Prop where
  root : ∃ r ∈ s.canonicalize root, r <+: p
  registered : ∃ registered ∈ slot.roots, ∃ r ∈ s.canonicalize registered, r <+: p

/-- What the calls act on resolves to something inside, what they make goes into a directory that
does, and what is not as it was afterwards lies inside. -/
structure StaysInside (s : FileTree) (slot : WorkspaceRootsCache) (root : PathBuf)
    (cs : List FsCall) : Prop where
  existing : ∀ call ∈ cs, ∀ p ∈ call.existing,
    ∃ q ∈ s.canonicalize (absolutePath p), Inside s slot root q
  new : ∀ call ∈ cs, ∀ p ∈ call.new,
    ∃ q ∈ s.canonicalize (absolutePath p.dropLast), Inside s slot root q
  changed : ∀ t, cs.foldlM FsCall.perform s = .ok t →
    ∀ q, t.node q ≠ s.node q → Inside s slot root q

variable {s t : FileTree} {slot : WorkspaceRootsCache} {root rel relDir : PathBuf} {name : String}
  {p q : List String} {c : FsCommand} {call : FsCall} {cs : List FsCall} {v : FsVerb}
  {target : List String}

theorem perform_rename_or_exists {source : List String} :
    ((if targetExists s target then .error .alreadyExists
        else (pure [FsCall.rename source target] : Except FsError (List FsCall)))
      >>= fun cs => cs.foldlM FsCall.perform s)
      = if targetExists s target then .error .alreadyExists
        else (fsRename s source target).mapError mapIoError := by
  split_ifs
  · rfl
  · simp [FsCall.perform]

/-- What a destructive verb does is what its calls do. -/
theorem FsVerb.run_eq : v.run s slot root rel = (v.command rel).run s slot root := by
  cases v with
  | delete =>
    simp [FsVerb.run, FsVerb.command, FsCommand.run, FsCommand.calls, FsCommand.inner,
      deleteEntryInner, FsCall.perform]
  | rename newName =>
    simp [FsVerb.run, FsVerb.command, FsCommand.run, FsCommand.calls, FsCommand.inner,
      renameEntryInner, perform_rename_or_exists]
  | move relDirTo =>
    simp only [FsVerb.run, FsVerb.command, FsCommand.run, FsCommand.calls, FsCommand.inner,
      moveEntryInner, bind_assoc]
    congr! 4 with _ source
    rcases source.getLast? with _ | name
    · rfl
    · exact (bind_congr fun _ => perform_rename_or_exists.symm).trans (bind_assoc _ _ _).symm

/-- A preview of a file that stays as it is is refused where its call is, for the same reason. -/
theorem map_readFilePreview :
    (fun _ => ()) <$> readFilePreview s s slot root rel
      = (fun _ => ()) <$> (FsCommand.readFilePreview rel).calls s slot root := by
  simp only [readFilePreview, readFilePreviewInner, FsCommand.calls, FsCommand.inner, map_bind]
  congr! 2
  rcases hpath : validatedExisting s root rel with e | path
  · rfl
  have hc := (validatePathWithin_eq_ok (Results.mapError_eq_ok.1 hpath)).1
  have hread := FileTree.canonicalize_absolutePath (FileTree.isReal_of_canonicalize hc)
  rcases hnode : s.node path with _ | _ | content | target
  case some.file =>
    simp only [bind, Except.bind, hnode, hread, Option.bind_some]
    split_ifs <;> rfl
  all_goals
    simp only [bind, Except.bind, hnode]
    rfl

/-! ## The calls are inside -/

theorem inside_of_isReal (hp : s.IsReal p) (h : Inside s slot root p) :
    ∃ q ∈ s.canonicalize (absolutePath p), Inside s slot root q :=
  ⟨p, FileTree.canonicalize_absolutePath hp, h⟩

/-- A root that is let in lies in a registered one. -/
theorem registered_of_ensureFsRoot (hempty : [] ∉ slot.roots)
    (h : ensureFsRoot s slot root = .ok ()) :
    ∃ r ∈ s.canonicalize root, ∃ registered ∈ slot.roots, ∃ q ∈ s.canonicalize registered,
      q <+: r := by
  rw [ensureFsRoot, Results.mapError_eq_ok] at h
  cases slot with
  | neverLoaded => cases h
  | loaded map =>
    rcases hr : s.canonicalize root with _ | r
    · simp [ensureRegisteredRootIn, hr] at h
    · simp only [ensureRegisteredRootIn, hr, List.any_eq_true, decide_eq_true_eq] at h
      split_ifs at h with hany
      obtain ⟨registered, hmem, hpre⟩ := hany
      have hne : registered ≠ [] := fun heq => hempty (heq ▸ hmem)
      obtain ⟨q, hq, hqr⟩ := FileTree.canonicalize_of_prefix
        (FileTree.isReal_of_canonicalize hr) hne hpre
      exact ⟨r, rfl, registered, hmem, q, hq, hqr⟩

/-- What the checks of a path let through. -/
structure Validated (s : FileTree) (root : PathBuf) (p : List String) : Prop where
  real : s.IsReal p
  root : ∃ r, s.canonicalize root = some r ∧ r <+: p

theorem validated_of_existing (h : validatedExisting s root rel = .ok p) : Validated s root p := by
  obtain ⟨hp, hr⟩ := validatePathWithin_eq_ok (Results.mapError_eq_ok.1 h)
  exact ⟨FileTree.isReal_of_canonicalize hp, hr⟩

theorem validated_of_existingNonRoot (h : validatedExistingNonRoot s root rel = .ok p) :
    Validated s root p := by
  simp only [validatedExistingNonRoot, Results.bind_eq_ok] at h
  obtain ⟨c, hc, h⟩ := h
  have hv := validated_of_existing hc
  obtain ⟨r, hr, -⟩ := hv.root
  rw [hr, Results.ite_error_eq_ok] at h
  cases h.2
  exact hv

theorem validated_of_new (h : validatedNew s root relDir name = .ok target) :
    Validated s root target.dropLast := by
  obtain ⟨dir, hdir, hr, rfl⟩ := validatedNew_eq_ok h
  rw [List.dropLast_concat]
  exact ⟨FileTree.isReal_of_canonicalize hdir, hr⟩

/-- What a call acts on, and the directory of what it makes, have been checked. -/
structure FsCall.Checked (s : FileTree) (root : PathBuf) (call : FsCall) : Prop where
  existing : ∀ p ∈ call.existing, Validated s root p
  new : ∀ p ∈ call.new, Validated s root p.dropLast

theorem checked_existing (hp : Validated s root p) (he : call.existing = [p])
    (hn : call.new = []) : call.Checked s root := by
  constructor
  · simpa [he] using hp
  · simp [hn]

theorem checked_new (hp : Validated s root target.dropLast) (he : call.existing = [])
    (hn : call.new = [target]) : call.Checked s root := by
  constructor
  · simp [he]
  · simpa [hn] using hp

theorem checked_rename (hp : Validated s root p) (ht : Validated s root target.dropLast) :
    (FsCall.rename p target).Checked s root := by
  constructor
  · simpa [FsCall.existing] using hp
  · simpa [FsCall.new] using ht

theorem checked_of_bind {x : Except FsError (List String)} {make : List String → FsCall}
    (hx : ∀ p, x = .ok p → (make p).Checked s root)
    (h : (x >>= fun p => pure [make p]) = .ok cs) : ∀ call ∈ cs, call.Checked s root := by
  obtain ⟨p, hp, h⟩ := Results.bind_eq_ok.1 h
  cases h
  simpa using hx p hp

theorem checked_of_rename {source : List String} (hsource : Validated s root source)
    (h : (validatedNew s root relDir name >>= fun target =>
      if targetExists s target then .error .alreadyExists
      else pure [.rename source target]) = .ok cs) : ∀ call ∈ cs, call.Checked s root := by
  obtain ⟨target, htarget, h⟩ := Results.bind_eq_ok.1 h
  split_ifs at h
  cases h
  simpa using checked_rename hsource (validated_of_new htarget)

theorem checked_of_inner (h : c.inner s root = .ok cs) : ∀ call ∈ cs, call.Checked s root := by
  cases c with
  | listDir rel =>
    simp only [FsCommand.inner, Results.bind_eq_ok] at h
    obtain ⟨dir, hdir, h⟩ := h
    have hv := validated_of_existing hdir
    split_ifs at h
    cases h
    simpa using ⟨checked_existing hv rfl rfl, checked_existing hv rfl rfl⟩
  | readFilePreview rel =>
    simp only [FsCommand.inner, Results.bind_eq_ok] at h
    obtain ⟨path, hpath, h⟩ := h
    have hv := validated_of_existing hpath
    split at h <;> cases h
    split_ifs
    · simp
    · simpa using checked_existing hv rfl rfl
  | createFile relDir name | createDir relDir name =>
    exact checked_of_bind (fun _ hp => checked_new (validated_of_new hp) rfl rfl) h
  | renameEntry rel newName =>
    obtain ⟨source, hsource, h⟩ := Results.bind_eq_ok.1 h
    exact checked_of_rename (validated_of_existingNonRoot hsource) h
  | moveEntry relFrom relDirTo =>
    obtain ⟨source, hsource, h⟩ := Results.bind_eq_ok.1 h
    have hv := validated_of_existingNonRoot hsource
    rcases hlast : source.getLast? with _ | name
    · simp only [hlast, Results.bind_eq_ok] at h
      obtain ⟨_, h, -⟩ := h
      cases h
    · rw [hlast] at h
      exact checked_of_rename hv h
  | deleteEntry rel =>
    exact checked_of_bind (fun _ hp => checked_existing (validated_of_existingNonRoot hp) rfl rfl) h
  | revealInFinder rel | openExternal rel =>
    exact checked_of_bind (fun _ hp => checked_existing (validated_of_existing hp) rfl rfl) h

/-! ## What a call changes -/

theorem node_of_fsRename {source : List String} (h : fsRename s source target = .ok t)
    (hsource : ¬source <+: q) (htarget : ¬target <+: q) : t.node q = s.node q := by
  unfold fsRename at h
  split_ifs at h
  · cases h
    rfl
  · simp only [Results.bind_eq_ok] at h
    obtain ⟨_, -, h⟩ := h
    cases h
    simp only [FileTree.relocate]
    rw [if_neg htarget, if_neg hsource]

theorem node_of_makeEntry {n : FileNode} (h : makeEntry s target n = .ok t)
    (htarget : ¬target <+: q) : t.node q = s.node q := by
  unfold makeEntry at h
  split_ifs at h
  cases h
  have hne : q ≠ target := fun heq => htarget (heq ▸ List.prefix_rfl)
  exact if_neg hne

theorem node_of_trashDelete (h : trashDelete s target = .ok t) (htarget : ¬target <+: q) :
    t.node q = s.node q := by
  unfold trashDelete at h
  split_ifs at h
  cases h
  exact if_neg htarget

/-- A call changes nothing but what it acts on and what it makes, and what lies below. -/
theorem node_of_perform (h : call.perform s = .ok t) (he : ∀ p ∈ call.existing, ¬p <+: q)
    (hn : ∀ p ∈ call.new, ¬p <+: q) : t.node q = s.node q := by
  cases call with
  | readDir dir | walk dir | readFile path | reveal target | openWith target =>
    cases h
    rfl
  | createNew target =>
    exact node_of_makeEntry (Results.mapError_eq_ok.1 h) (by simpa [FsCall.new] using hn)
  | createDir target =>
    exact node_of_makeEntry (Results.mapError_eq_ok.1 h) (by simpa [FsCall.new] using hn)
  | rename source target =>
    exact node_of_fsRename (Results.mapError_eq_ok.1 h) (by simpa [FsCall.existing] using he)
      (by simpa [FsCall.new] using hn)
  | trash target =>
    exact node_of_trashDelete (Results.mapError_eq_ok.1 h) (by simpa [FsCall.existing] using he)

theorem node_of_foldlM (h : cs.foldlM FsCall.perform s = .ok t)
    (hq : ∀ call ∈ cs, (∀ p ∈ call.existing, ¬p <+: q) ∧ ∀ p ∈ call.new, ¬p <+: q) :
    t.node q = s.node q := by
  induction cs generalizing s with
  | nil =>
    cases h
    rfl
  | cons call cs ih =>
    rw [List.foldlM_cons, Results.bind_eq_ok] at h
    obtain ⟨u, hu, h⟩ := h
    obtain ⟨hcall, hcs⟩ := List.forall_mem_cons.1 hq
    rw [ih h hcs, node_of_perform hu hcall.1 hcall.2]

/-! ## The commands -/

/-- A repository that ignores `out`, with a workspace in it. -/
def ignoringTree : FileTree :=
  ((((FileTree.empty [] 32).insert ["repo"] .dir (by decide)).insert ["repo", ".git"] .dir
    (by decide)).insert ["repo", ".gitignore"] (.file [111, 117, 116, 10]) (by decide)).insert
    ["repo", "ws"] .dir (by decide)

/-- The `.gitignore` files of a directory and of those above it. -/
def parentsWalker : Walker := fun s dir =>
  (dir.inits.map (· ++ [".gitignore"])).filter fun p => (s.node p).isSome

end BuilderPro
