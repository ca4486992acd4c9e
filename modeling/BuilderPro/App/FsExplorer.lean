import BuilderPro.Lib.FileTree
import BuilderPro.Lib.Results

/-!
# The file explorer

`delete_entry`, `rename_entry` and `move_entry` are given a root and a path within it, and act on
what the path resolves to.  Each does to the entry that was named, and to nothing else, what it is
for, exactly if that entry is no symbolic link and no registered root leads to it or below it
(`actsOnNamed_iff`).
-/

namespace BuilderPro

abbrev PathBuf := List PathComponent

/-- `Path::join`. -/
def pathJoin (dir path : PathBuf) : PathBuf :=
  match path with
  | .rootDir :: _ => path
  | _ => dir ++ path

/-- `Path::file_name`. -/
def pathFileName (path : PathBuf) : Option String :=
  match path.getLast? with
  | some (.normal name) => some name
  | _ => none

/-- `Path::parent`. -/
def pathParent (path : PathBuf) : Option PathBuf :=
  match path.getLast? with
  | none => none
  | some .rootDir => none
  | some _ => some path.dropLast

/-- The kinds of `std::io::Error`. -/
inductive IoError
  | notFound
  | permissionDenied
  | other (message : String)
  deriving DecidableEq

/-- Whether `rename(2)` may put the source where the target is. -/
def checkReplace (s : FileTree) (source target : List String) : Except IoError Unit :=
  match s.node source, s.node target with
  | none, _ => .error .notFound
  | some _, none => .ok ()
  | some .dir, some .dir =>
    if ∀ p ∈ s.paths, target <+: p → p ≠ target → s.node p = none then .ok ()
    else .error (.other "Directory not empty (os error 66)")
  | some .dir, some _ => .error (.other "Not a directory (os error 20)")
  | some _, some .dir => .error (.other "Is a directory (os error 21)")
  | some _, some _ => .ok ()

/-- `std::fs::rename`, of paths with no link above their last names. -/
def fsRename (s : FileTree) (source target : List String) : Except IoError FileTree :=
  if s.node source = none ∨ s.node target.dropLast = none then .error .notFound
  else if s.node target.dropLast ≠ some .dir then .error (.other "Not a directory (os error 20)")
  else if source = target then .ok s
  else if h : s.CanMove source target then do
    checkReplace s source target
    return s.relocate source target h
  else .error (.other "Invalid argument (os error 22)")

/-- `trash_delete`: what goes to the Trash leaves the tree. -/
def trashDelete (s : FileTree) (target : List String) : Except String FileTree :=
  if h : target = [] then .error "TargetedRoot"
  else if s.node target = none then .error "CouldNotAccess"
  else .ok (s.remove target h)

inductive FsError
  | notFound
  | permissionDenied
  | outsideRoot
  | alreadyExists
  | tooLarge
  | disconnected
  | io (message : String)
  deriving DecidableEq

inductive PathError
  | symlinkEscape
  | canonicalize
  deriving DecidableEq

def validatePathWithin (s : FileTree) (root candidate : PathBuf) :
    Except PathError (List String) := do
  let canonicalRoot ← match s.canonicalize root with
    | some p => .ok p
    | none => .error .canonicalize
  let canonicalCandidate ← match s.canonicalize candidate with
    | some p => .ok p
    | none => .error .symlinkEscape
  if canonicalRoot <+: canonicalCandidate then .ok canonicalCandidate
  else .error .symlinkEscape

def validateParentWithin (s : FileTree) (root target : PathBuf) :
    Except PathError (List String) := do
  let finalComponent ← match pathFileName target with
    | some name => .ok name
    | none => .error .symlinkEscape
  if '/' ∈ finalComponent.toList then .error .symlinkEscape
  let parent ← match pathParent target with
    | some p => .ok p
    | none => .error .symlinkEscape
  let canonicalParent ← validatePathWithin s root parent
  return canonicalParent ++ [finalComponent]

def joinRel (root rel : PathBuf) : PathBuf :=
  if rel = [] then root else pathJoin root rel

def validatedExisting (s : FileTree) (root rel : PathBuf) : Except FsError (List String) :=
  (validatePathWithin s root (joinRel root rel)).mapError fun _ => .outsideRoot

def validatedExistingNonRoot (s : FileTree) (root rel : PathBuf) :
    Except FsError (List String) := do
  let candidate ← validatedExisting s root rel
  match s.canonicalize root with
  | none => .error .outsideRoot
  | some canonicalRoot =>
    if candidate = canonicalRoot then .error .outsideRoot else .ok candidate

def rejectSeparator (name : String) : Except FsError Unit :=
  if name = "" ∨ name = "." ∨ name = ".." ∨ '/' ∈ name.toList ∨ '\\' ∈ name.toList then
    .error .outsideRoot
  else .ok ()

def validatedNew (s : FileTree) (root relDir : PathBuf) (name : String) :
    Except FsError (List String) := do
  rejectSeparator name
  (validateParentWithin s root (joinRel root relDir ++ [.normal name])).mapError
    fun _ => .outsideRoot

/-- `symlink_metadata` follows no link. -/
def targetExists (s : FileTree) (target : List String) : Bool := (s.node target).isSome

def mapIoError : IoError → FsError
  | .notFound => .notFound
  | .permissionDenied => .permissionDenied
  | .other message => .io message

def renameEntryInner (s : FileTree) (root rel : PathBuf) (newName : String) :
    Except FsError FileTree := do
  let source ← validatedExistingNonRoot s root rel
  let target ← validatedNew s root ((pathParent rel).getD []) newName
  if targetExists s target then .error .alreadyExists
  else (fsRename s source target).mapError mapIoError

def moveEntryInner (s : FileTree) (root relFrom relDirTo : PathBuf) :
    Except FsError FileTree := do
  let source ← validatedExistingNonRoot s root relFrom
  let name ← match source.getLast? with
    | some name => .ok name
    | none => .error .outsideRoot
  let target ← validatedNew s root relDirTo name
  if targetExists s target then .error .alreadyExists
  else (fsRename s source target).mapError mapIoError

def deleteEntryInner (s : FileTree) (root rel : PathBuf) : Except FsError FileTree := do
  let target ← validatedExistingNonRoot s root rel
  (trashDelete s target).mapError .io

/-- Each workspace's roots. -/
inductive WorkspaceRootsCache
  | neverLoaded
  | loaded (map : List (String × List PathBuf))

def WorkspaceRootsCache.roots : WorkspaceRootsCache → List PathBuf
  | .neverLoaded => []
  | .loaded map => map.flatMap (·.2)

/-- The errors of the guard. -/
inductive CommandError
  | daemon (code message : String)
  | disconnected
  deriving DecidableEq

def ensureRegisteredRootIn (s : FileTree) (slot : WorkspaceRootsCache) (root : PathBuf) :
    Except CommandError Unit :=
  match slot with
  | .neverLoaded => .error .disconnected
  | .loaded map =>
    match s.canonicalize root with
    | none => .error (.daemon "NotFound" "root is not a registered workspace root")
    | some canonical =>
      if (map.flatMap (·.2)).any (· <+: absolutePath canonical) then .ok ()
      else .error (.daemon "OutsideRoot" "root is not a registered workspace root")

def ensureFsRoot (s : FileTree) (slot : WorkspaceRootsCache) (root : PathBuf) :
    Except FsError Unit :=
  (ensureRegisteredRootIn s slot root).mapError fun
    | .disconnected => .disconnected
    | .daemon code _ => if code = "NotFound" then .notFound else .outsideRoot

/-- The destructive verbs and their further arguments. -/
inductive FsVerb
  | delete
  | rename (newName : String)
  | move (relDirTo : PathBuf)
  deriving DecidableEq

/-- `delete_entry`, `rename_entry` and `move_entry`. -/
def FsVerb.run (s : FileTree) (slot : WorkspaceRootsCache) (root rel : PathBuf) :
    FsVerb → Except FsError FileTree
  | .delete => do
    ensureFsRoot s slot root
    deleteEntryInner s root rel
  | .rename newName => do
    ensureFsRoot s slot root
    renameEntryInner s root rel newName
  | .move relDirTo => do
    ensureFsRoot s slot root
    moveEntryInner s root rel relDirTo

/-- The entry a path names: its last name, in the directory that comes before it. -/
def namedEntry (s : FileTree) (root rel : PathBuf) : Option (List String) := do
  let name ← pathFileName rel
  let parent ← s.canonicalize (joinRel root ((pathParent rel).getD []))
  return parent ++ [name]

/-- The entry a verb is to move what was named to, if it moves it. -/
def FsVerb.destination (s : FileTree) (root rel : PathBuf) : FsVerb → Option (List String)
  | .delete => none
  | .rename newName => do
    let parent ← s.canonicalize (joinRel root ((pathParent rel).getD []))
    return parent ++ [newName]
  | .move relDirTo => do
    let name ← pathFileName rel
    let dir ← s.canonicalize (joinRel root relDirTo)
    return dir ++ [name]

/-- An entry, with what lies under it, goes from the tree, to a destination that was free if there
is one; nothing else changes. -/
structure Takes (s t : FileTree) (p : List String) (dest : Option (List String)) : Prop where
  gone : ∀ r, t.node (p ++ r) = none
  moved : ∀ d ∈ dest, ∀ r, t.node (d ++ r) = s.node (p ++ r)
  free : ∀ d ∈ dest, s.node d = none
  others : ∀ q, ¬p <+: q → (∀ d ∈ dest, ¬d <+: q) → t.node q = s.node q

/-- The verb has done what it is for to the entry that was named, and what the registered roots lead
to is where it was. -/
structure ActsOnNamed (s t : FileTree) (slot : WorkspaceRootsCache) (root rel : PathBuf)
    (v : FsVerb) : Prop where
  takes : ∃ p ∈ namedEntry s root rel, Takes s t p (v.destination s root rel)
  destination : v ≠ .delete → (v.destination s root rel).isSome
  roots : ∀ registered ∈ slot.roots, ∀ r ∈ s.canonicalize registered, t.node r = s.node r

/-- What the path names is no link, and no registered root leads to it or below it. -/
structure NamesPlainEntry (s : FileTree) (slot : WorkspaceRootsCache) (root rel : PathBuf) :
    Prop where
  not_link : ∀ p ∈ namedEntry s root rel, s.isLink p = false
  roots : ∀ p ∈ namedEntry s root rel, ∀ registered ∈ slot.roots,
    ∀ r ∈ s.canonicalize registered, ¬p <+: r

variable {s t : FileTree} {slot : WorkspaceRootsCache} {root rel relDir : PathBuf}
  {source target p q : List String} {name : String} {v : FsVerb}

@[simp] theorem pathFileName_concat : pathFileName (rel ++ [.normal name]) = some name := by
  simp [pathFileName]

@[simp] theorem pathParent_concat : pathParent (rel ++ [.normal name]) = some rel := by
  simp [pathParent]

theorem joinRel_concat :
    joinRel root (rel ++ [.normal name]) = joinRel root rel ++ [.normal name] := by
  rcases rel with _ | ⟨x, rel⟩
  · simp [joinRel, pathJoin]
  · cases x <;> simp [joinRel, pathJoin]

theorem joinRel_ne_nil (h : root ≠ []) : joinRel root rel ≠ [] := by
  rcases rel with _ | ⟨x, rel⟩
  · simpa [joinRel] using h
  · cases x <;> simp [joinRel, pathJoin]

theorem validatePathWithin_eq_ok {candidate : PathBuf}
    (h : validatePathWithin s root candidate = .ok p) :
    s.canonicalize candidate = some p ∧ ∃ r, s.canonicalize root = some r ∧ r <+: p := by
  unfold validatePathWithin at h
  rcases hr : s.canonicalize root with _ | r
  · simp [hr] at h
  · rcases hc : s.canonicalize candidate with _ | c
    · simp [hr, hc] at h
    · simp only [hr, hc, Results.bind_eq_ok, Except.ok.injEq] at h
      obtain ⟨_, rfl, _, rfl, h⟩ := h
      split_ifs at h with hpre
      cases h
      exact ⟨rfl, r, rfl, hpre⟩

theorem validatedExistingNonRoot_eq_ok (h : validatedExistingNonRoot s root rel = .ok source) :
    s.canonicalize (joinRel root rel) = some source ∧ root ≠ [] := by
  simp only [validatedExistingNonRoot, validatedExisting, Results.bind_eq_ok,
    Results.mapError_eq_ok] at h
  obtain ⟨c, hc, h⟩ := h
  obtain ⟨hc, r, hr, -⟩ := validatePathWithin_eq_ok hc
  rw [hr] at h
  obtain ⟨-, rfl⟩ := by simpa using h
  refine ⟨hc, ?_⟩
  rintro rfl
  simp [FileTree.canonicalize] at hr

theorem validatedNew_eq_ok (h : validatedNew s root relDir name = .ok target) :
    ∃ dir, s.canonicalize (joinRel root relDir) = some dir
      ∧ (∃ r, s.canonicalize root = some r ∧ r <+: dir) ∧ target = dir ++ [name] := by
  simp only [validatedNew, validateParentWithin, pathFileName_concat, pathParent_concat,
    Results.bind_eq_ok, Results.mapError_eq_ok] at h
  obtain ⟨_, -, final, hfinal, h⟩ := h
  obtain rfl : name = final := Except.ok.inj hfinal
  split_ifs at h
  · obtain ⟨_, h, -⟩ := Results.bind_eq_ok.1 h
    cases h
  · obtain ⟨parent, hparent, h⟩ := Results.bind_eq_ok.1 h
    obtain rfl : joinRel root relDir = parent := Except.ok.inj hparent
    obtain ⟨dir, hdir, h⟩ := Results.bind_eq_ok.1 h
    cases h
    exact ⟨dir, (validatePathWithin_eq_ok hdir).1, (validatePathWithin_eq_ok hdir).2, rfl⟩

/-- Nothing that was there lies at or below the destination. -/
theorem Takes.not_prefix {dest : Option (List String)} (h : Takes s t p dest)
    (hq : s.node q ≠ none) : ∀ d ∈ dest, ¬d <+: q :=
  fun d hd hpre => FileTree.node_of_prefix hpre hq (h.free d hd)

theorem takes_remove (hp : p ≠ []) : Takes s (s.remove p hp) p none where
  gone r := if_pos (List.prefix_append p r)
  moved := nofun
  free := nofun
  others _ hq _ := if_neg hq

theorem takes_relocate (h : s.CanMove source target) (hsource : s.node source ≠ none)
    (hfree : s.node target = none) : Takes s (s.relocate source target h) source (some target) where
  gone r := by
    have hnot : ¬target <+: source ++ r := by
      intro hpre
      rcases List.prefix_or_prefix_of_prefix hpre (List.prefix_append source r) with hle | hle
      · exact FileTree.node_of_prefix hle hsource hfree
      · exact h.outside hle
    simp only [FileTree.relocate]
    rw [if_neg hnot, if_pos (List.prefix_append source r)]
  moved d hd r := by
    obtain rfl := Option.mem_some_iff.1 hd
    simp only [FileTree.relocate]
    rw [if_pos (List.prefix_append target r), List.drop_left]
  free d hd := by
    obtain rfl := Option.mem_some_iff.1 hd
    exact hfree
  others q hq hout := by
    simp only [FileTree.relocate]
    rw [if_neg (hout target rfl), if_neg hq]

theorem takes_of_rename (hfree : targetExists s target = false)
    (h : fsRename s source target = .ok t) : Takes s t source (some target) := by
  have hnone : s.node target = none := by simpa [targetExists] using hfree
  unfold fsRename at h
  split_ifs at h with hmissing hdir heq hmove
  · -- the source is there and the target is not
    cases h
    exact absurd (.inl (heq ▸ hnone)) hmissing
  · simp only [Results.bind_eq_ok] at h
    obtain ⟨_, -, h⟩ := h
    cases h
    exact takes_relocate hmove (fun hs => hmissing (.inl hs)) hnone

theorem takes_of_renameEntryInner {newName : String}
    (h : renameEntryInner s root rel newName = .ok t) :
    ∃ source, validatedExistingNonRoot s root rel = .ok source
      ∧ ∃ parent, s.canonicalize (joinRel root ((pathParent rel).getD [])) = some parent
        ∧ Takes s t source (some (parent ++ [newName])) := by
  simp only [renameEntryInner, Results.bind_eq_ok] at h
  obtain ⟨source, hsource, target, htarget, h⟩ := h
  obtain ⟨parent, hparent, -, rfl⟩ := validatedNew_eq_ok htarget
  split_ifs at h with hexists
  exact ⟨source, hsource, parent, hparent,
    takes_of_rename (by simpa using hexists) (Results.mapError_eq_ok.1 h)⟩

theorem takes_of_moveEntryInner {relDirTo : PathBuf}
    (h : moveEntryInner s root rel relDirTo = .ok t) :
    ∃ source, validatedExistingNonRoot s root rel = .ok source
      ∧ ∃ dir name, s.canonicalize (joinRel root relDirTo) = some dir
        ∧ source.getLast? = some name ∧ Takes s t source (some (dir ++ [name])) := by
  simp only [moveEntryInner, Results.bind_eq_ok] at h
  obtain ⟨source, hsource, h⟩ := h
  rcases hlast : source.getLast? with _ | name
  · rw [hlast] at h
    obtain ⟨_, h, -⟩ := Results.bind_eq_ok.1 h
    cases h
  · rw [hlast] at h
    obtain ⟨_, hname, h⟩ := Results.bind_eq_ok.1 h
    cases hname
    obtain ⟨target, htarget, h⟩ := Results.bind_eq_ok.1 h
    obtain ⟨dir, hdir, -, rfl⟩ := validatedNew_eq_ok htarget
    split_ifs at h with hexists
    exact ⟨source, hsource, dir, name, hdir, hlast,
      takes_of_rename (by simpa using hexists) (Results.mapError_eq_ok.1 h)⟩

theorem takes_of_deleteEntryInner (h : deleteEntryInner s root rel = .ok t) :
    ∃ source, validatedExistingNonRoot s root rel = .ok source ∧ Takes s t source none := by
  simp only [deleteEntryInner, Results.bind_eq_ok, Results.mapError_eq_ok] at h
  obtain ⟨source, hsource, h⟩ := h
  refine ⟨source, hsource, ?_⟩
  unfold trashDelete at h
  split_ifs at h with hnil
  cases h
  exact takes_remove hnil

/-- Whatever a verb does, it does to what the path resolves to. -/
theorem takes_of_run (h : v.run s slot root rel = .ok t) :
    ∃ source, validatedExistingNonRoot s root rel = .ok source
      ∧ (∃ dest, Takes s t source dest)
      ∧ (pathFileName rel = source.getLast? → Takes s t source (v.destination s root rel)
        ∧ (v ≠ .delete → (v.destination s root rel).isSome)) := by
  cases v with
  | delete =>
    simp only [FsVerb.run, Results.bind_eq_ok] at h
    obtain ⟨_, -, h⟩ := h
    obtain ⟨source, hsource, htakes⟩ := takes_of_deleteEntryInner h
    exact ⟨source, hsource, ⟨_, htakes⟩, fun _ => ⟨htakes, fun h => absurd rfl h⟩⟩
  | rename newName =>
    simp only [FsVerb.run, Results.bind_eq_ok] at h
    obtain ⟨_, -, h⟩ := h
    obtain ⟨source, hsource, parent, hparent, htakes⟩ := takes_of_renameEntryInner h
    have hdest : (FsVerb.rename newName).destination s root rel = some (parent ++ [newName]) := by
      simp [FsVerb.destination, hparent]
    exact ⟨source, hsource, ⟨_, htakes⟩, fun _ => ⟨hdest ▸ htakes, fun _ => by simp [hdest]⟩⟩
  | move relDirTo =>
    simp only [FsVerb.run, Results.bind_eq_ok] at h
    obtain ⟨_, -, h⟩ := h
    obtain ⟨source, hsource, dir, name, hdir, hname, htakes⟩ := takes_of_moveEntryInner h
    refine ⟨source, hsource, ⟨_, htakes⟩, fun hlast => ?_⟩
    have hdest : (FsVerb.move relDirTo).destination s root rel = some (dir ++ [name]) := by
      simp [FsVerb.destination, hdir, hlast, hname]
    exact ⟨hdest ▸ htakes, fun _ => by simp [hdest]⟩

/-- A successful verb on a path that ends in a plain name acts on exactly the entry that was named
if and only if that entry is no link and no registered root leads to it or below it. -/
theorem actsOnNamed_iff (h : v.run s slot root (rel ++ [.normal name]) = .ok t) :
    ActsOnNamed s t slot root (rel ++ [.normal name]) v
      ↔ NamesPlainEntry s slot root (rel ++ [.normal name]) := by
  obtain ⟨source, hsource, ⟨dest, htakes⟩, hnamed⟩ := takes_of_run h
  obtain ⟨hcanonical, hroot⟩ := validatedExistingNonRoot_eq_ok hsource
  rw [joinRel_concat] at hcanonical
  have hreal := FileTree.isReal_of_canonicalize hcanonical
  obtain ⟨d, hd, -, hplain⟩ := FileTree.canonicalize_concat (joinRel_ne_nil hroot) hcanonical
  have hentry : namedEntry s root (rel ++ [.normal name]) = some (d ++ [name]) := by
    simp [namedEntry, hd]
  constructor
  · intro hacts
    obtain ⟨p, hp, hgone⟩ := hacts.takes
    obtain rfl := Option.mem_unique hentry hp
    refine ⟨fun p hp => ?_, fun p hp registered hregistered r hr hpre => ?_⟩
    · obtain rfl := Option.mem_unique hentry hp
      by_contra hlink
      -- the target of the link is gone
      refine hreal.1 ?_
      rw [← hgone.others source (FileTree.not_prefix_of_isLink (by simpa using hlink) hreal)
        (hgone.not_prefix hreal.1)]
      simpa using htakes.gone []
    · obtain rfl := Option.mem_unique hentry hp
      obtain ⟨q, rfl⟩ := hpre
      refine (FileTree.isReal_of_canonicalize hr).1 ?_
      rw [← hacts.roots registered hregistered _ hr]
      exact hgone.gone q
  · intro hplainEntry
    have heq := hplain (hplainEntry.not_link _ hentry)
    obtain ⟨htakes, hdest⟩ := hnamed (by rw [heq]; simp)
    rw [heq] at htakes
    exact ⟨⟨_, hentry, htakes⟩, hdest, fun registered hregistered r hr =>
      htakes.others r (hplainEntry.roots _ hentry registered hregistered r hr)
        (htakes.not_prefix (FileTree.isReal_of_canonicalize hr).1)⟩

/-- A workspace with a directory, a file in it, and a link to that file. -/
def linkedTree : FileTree :=
  ((((FileTree.empty [] 32).insert ["ws"] .dir (by decide)).insert ["ws", "sub"] .dir
    (by decide)).insert ["ws", "sub", "a"] (.file [97]) (by decide)).insert ["ws", "l"]
    (.link [.normal "sub", .normal "a"]) (by decide)

theorem actsOnNamed_iff_rename : ∃ t,
    (FsVerb.rename "b").run linkedTree (.loaded [("w", [absolutePath ["ws"]])]) (absolutePath ["ws"])
      [.normal "sub", .normal "a"] = .ok t ∧ t.node ["ws", "sub", "b"] = some (.file [97])
      ∧ (ActsOnNamed linkedTree t (.loaded [("w", [absolutePath ["ws"]])]) (absolutePath ["ws"])
          [.normal "sub", .normal "a"] (.rename "b")
        ↔ NamesPlainEntry linkedTree (.loaded [("w", [absolutePath ["ws"]])])
          (absolutePath ["ws"]) [.normal "sub", .normal "a"]) :=
  ⟨_, rfl, by decide +kernel, @actsOnNamed_iff _ _ _ _ [.normal "sub"] "a" (.rename "b") rfl⟩

/-- Deleting a link trashes the file it leads to, and leaves the link. -/
theorem link_target_trashed : ∃ t,
    FsVerb.delete.run linkedTree (.loaded [("w", [absolutePath ["ws"]])]) (absolutePath ["ws"])
      [.normal "l"] = .ok t ∧ t.node ["ws", "sub", "a"] = none
      ∧ t.node ["ws", "l"] = some (.link [.normal "sub", .normal "a"])
      ∧ ¬ActsOnNamed linkedTree t (.loaded [("w", [absolutePath ["ws"]])]) (absolutePath ["ws"])
        [.normal "l"] .delete := by
  refine ⟨_, rfl, by decide +kernel, by decide +kernel, fun h => ?_⟩
  obtain ⟨p, hp, htakes⟩ := h.takes
  obtain rfl : ["ws", "l"] = p := Option.mem_unique (by decide +kernel) hp
  exact absurd (htakes.gone []) (by decide +kernel)

end BuilderPro
