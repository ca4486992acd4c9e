import BuilderPro.App.FsExplorer
import BuilderPro.Lib.KeyedTable
import BuilderPro.Lib.Replica
import BuilderPro.Lib.Runs
import BuilderPro.Lib.Slots

/-!
# The registered roots

The core keeps each workspace's roots for the guard of the file commands: a list reply replaces
them, the replies to the commands and the pushes of the daemon change one workspace's.  Every change
of the daemon's is told in a push (`tells_serve`).
-/

namespace BuilderPro

/-- A workspace with its canonical roots. -/
structure WorkspaceRoots where
  id : String
  roots : List PathBuf
  deriving DecidableEq

section Canonical

variable (s : FileTree)

def canonicalRootStr (root : PathBuf) : PathBuf := (s.canonicalize root).elim root absolutePath

/-- `validate_dir`: a directory's canonical path. -/
def validateDir (path : PathBuf) : Option PathBuf :=
  (s.canonicalize path).bind fun p => if s.node p = some .dir then some (absolutePath p) else none

/-- The path a root is matched by, which may no longer be there. -/
def canonicalizeRootForMatch (path : PathBuf) : PathBuf :=
  match s.canonicalize path, pathParent path, pathFileName path with
  | some p, _, _ => absolutePath p
  | none, some parent, some name =>
    (s.canonicalize parent).elim path fun p => absolutePath p ++ [.normal name]
  | none, _, _ => path

theorem canonicalRootStr_absolutePath {s : FileTree} {path : PathBuf} {p : List String}
    (h : s.canonicalize path = some p) :
    canonicalRootStr s (absolutePath p) = absolutePath p := by
  rw [canonicalRootStr, FileTree.canonicalize_absolutePath (FileTree.isReal_of_canonicalize h)]
  rfl

theorem canonicalRootStr_of_validateDir {s : FileTree} {path root : PathBuf}
    (h : validateDir s path = some root) : canonicalRootStr s root = root := by
  obtain ⟨p, hp, h⟩ := Option.bind_eq_some_iff.1 h
  obtain ⟨-, ⟨⟩⟩ := Option.ite_none_right_eq_some.1 h
  exact canonicalRootStr_absolutePath hp

end Canonical

/-- The daemon's workspaces; their roots are as they were canonicalized when they were added. -/
structure WorkspaceTable (s : FileTree) where
  table : KeyedTable WorkspaceRoots.id
  canonical : ∀ w ∈ table.rows, ∀ root ∈ w.roots, canonicalRootStr s root = root

inductive WorkspaceRequest
  | listWorkspaces
  | createWorkspace (rootPath : PathBuf) (id : String)
  | addWorkspaceRoot (workspaceId : String) (path : PathBuf)
  | removeWorkspaceRoot (workspaceId : String) (path : PathBuf)
  | removeWorkspace (workspaceId : String)
  deriving DecidableEq

inductive WorkspacePush
  | workspaceCreated (workspace : WorkspaceRoots)
  | workspaceUpdated (workspace : WorkspaceRoots)
  | workspaceRemoved (workspaceId : String)
  deriving DecidableEq

/-- A reply with the command that takes it over; an error changes nothing. -/
inductive WorkspaceReply
  | workspaces (list : List WorkspaceRoots)
  | workspace (workspace : WorkspaceRoots)
  | removed (workspaceId : String)
  | error (code : String)
  deriving DecidableEq

namespace WorkspaceTable

variable {s : FileTree} (d : WorkspaceTable s)

def rootsOf (id : String) : Option (List PathBuf) := (d.table.lookup id).map WorkspaceRoots.roots

/-- A workspace gets the roots it has from now on. -/
def put (w : WorkspaceRoots) (h : ∀ root ∈ w.roots, canonicalRootStr s root = root) :
    WorkspaceTable s where
  table := d.table.upsert w
  canonical v hv := by
    rcases List.mem_cons.1 hv with rfl | hv
    · exact h
    · exact d.canonical v (List.mem_of_mem_filter hv)

def erase (id : String) : WorkspaceTable s where
  table := d.table.erase id
  canonical v hv := d.canonical v (List.mem_of_mem_filter hv)

/-- What a request does, the reply, and the push that every client is sent. -/
def serve : WorkspaceRequest → WorkspaceTable s × WorkspaceReply × Option WorkspacePush
  | .listWorkspaces => (d, .workspaces d.table.rows, none)
  | .createWorkspace rootPath id =>
    match h : validateDir s rootPath with
    | none => (d, .error "InvalidWorkspaceRoot", none)
    | some canonical =>
      let w : WorkspaceRoots := ⟨id, [canonical]⟩
      (d.put w fun root hroot => by
          rw [List.mem_singleton.1 hroot]
          exact canonicalRootStr_of_validateDir h,
        .workspace w, some (.workspaceCreated w))
  | .addWorkspaceRoot id path =>
    match h : validateDir s path, hw : d.table.lookup id with
    | none, _ => (d, .error "InvalidWorkspaceRoot", none)
    | some _, none => (d, .error "DbSql", none)
    | some canonical, some w =>
      if canonical ∈ w.roots then (d, .workspace w, some (.workspaceUpdated w))
      else
        let v : WorkspaceRoots := ⟨w.id, w.roots ++ [canonical]⟩
        (d.put v fun root hroot => by
            rcases List.mem_append.1 hroot with hroot | hroot
            · exact d.canonical w (KeyedTable.lookup_eq_some.1 hw).1 root hroot
            · rw [List.mem_singleton.1 hroot]
              exact canonicalRootStr_of_validateDir h,
          .workspace v, some (.workspaceUpdated v))
  | .removeWorkspaceRoot id path =>
    match hw : d.table.lookup id with
    | none => (d, .error "DbSql", none)
    | some w =>
      let remaining := w.roots.filter (· ≠ canonicalizeRootForMatch s path)
      if remaining.length = w.roots.length then (d, .workspace w, some (.workspaceUpdated w))
      else if remaining = [] then (d, .error "LastRoot", none)
      else
        let v : WorkspaceRoots := ⟨w.id, remaining⟩
        (d.put v fun root hroot =>
            d.canonical w (KeyedTable.lookup_eq_some.1 hw).1 root (List.mem_of_mem_filter hroot),
          .workspace v, some (.workspaceUpdated v))
  | .removeWorkspace id =>
    match d.table.lookup id with
    | none => (d, .error "DbSql", none)
    | some _ => (d.erase id, .removed id, some (.workspaceRemoved id))

end WorkspaceTable

namespace WorkspaceRootsCache

variable (s : FileTree)

def lookup (cache : WorkspaceRootsCache) (id : String) : Option (List PathBuf) :=
  match cache with
  | .neverLoaded => none
  | .loaded map => (map.find? (·.1 = id)).map (·.2)

def loadWorkspaceRoots (workspaces : List WorkspaceRoots) : WorkspaceRootsCache :=
  .loaded (workspaces.map fun w => (w.id, w.roots.map (canonicalRootStr s)))

def upsertWorkspaceRoots (slot : WorkspaceRootsCache) (w : WorkspaceRoots) :
    WorkspaceRootsCache :=
  let roots := w.roots.map (canonicalRootStr s)
  match slot with
  | .loaded map => .loaded ((w.id, roots) :: map.filter (·.1 ≠ w.id))
  | .neverLoaded => .loaded [(w.id, roots)]

def removeWorkspaceRoots (slot : WorkspaceRootsCache) (id : String) : WorkspaceRootsCache :=
  match slot with
  | .loaded map => .loaded (map.filter (·.1 ≠ id))
  | .neverLoaded => .neverLoaded

def applyWorkspacePush (slot : WorkspaceRootsCache) : WorkspacePush → WorkspaceRootsCache
  | .workspaceCreated w | .workspaceUpdated w => slot.upsertWorkspaceRoots s w
  | .workspaceRemoved id => slot.removeWorkspaceRoots id

/-- What a command does to the cache when it resumes with its reply. -/
def applyReply (slot : WorkspaceRootsCache) : WorkspaceReply → WorkspaceRootsCache
  | .workspaces list => loadWorkspaceRoots s list
  | .workspace w => slot.upsertWorkspaceRoots s w
  | .removed id => slot.removeWorkspaceRoots id
  | .error _ => slot

end WorkspaceRootsCache

/-- What a push makes of the cached roots of a workspace. -/
def WorkspacePush.act (s : FileTree) (id : String) (p : WorkspacePush)
    (v : Option (List PathBuf)) : Option (List PathBuf) :=
  match p with
  | .workspaceCreated w | .workspaceUpdated w =>
    if w.id = id then some (w.roots.map (canonicalRootStr s)) else v
  | .workspaceRemoved gone => if gone = id then none else v

/-- What a reply tells of a workspace's roots, if it tells anything. -/
def WorkspaceReply.tells (s : FileTree) (id : String) :
    WorkspaceReply → Option (Option (List PathBuf))
  | .workspaces list =>
    some ((list.find? fun w => w.id = id).map fun w => w.roots.map (canonicalRootStr s))
  | .workspace w => if w.id = id then some (some (w.roots.map (canonicalRootStr s))) else none
  | .removed gone => if gone = id then some none else none
  | .error _ => none

def WorkspacePush.workspaceId : WorkspacePush → String
  | .workspaceCreated w | .workspaceUpdated w => w.id
  | .workspaceRemoved id => id

/-- Whether a reply says what becomes of a workspace: a list says it of every one. -/
def WorkspaceReply.speaksOf (id : String) : WorkspaceReply → Bool
  | .workspaces _ => true
  | .workspace w => w.id = id
  | .removed gone => gone = id
  | .error _ => false

section Words

variable {s : FileTree} {slot : WorkspaceRootsCache} {id : String}

theorem find?_filter_ne {map : List (String × List PathBuf)} (gone : String) :
    (map.filter (·.1 ≠ gone)).find? (·.1 = id) =
      if gone = id then none else map.find? (·.1 = id) := by
  rw [List.find?_filter]
  split_ifs with h
  · simp [h]
  · congr 1
    funext entry
    by_cases hid : entry.1 = id
    · simp [hid, Ne.symm h]
    · simp [hid]

theorem lookup_upsertWorkspaceRoots (w : WorkspaceRoots) :
    (slot.upsertWorkspaceRoots s w).lookup id =
      if w.id = id then some (w.roots.map (canonicalRootStr s)) else slot.lookup id := by
  rcases slot with _ | map
  · by_cases h : w.id = id <;> simp [WorkspaceRootsCache.upsertWorkspaceRoots,
      WorkspaceRootsCache.lookup, h]
  · rw [WorkspaceRootsCache.upsertWorkspaceRoots, WorkspaceRootsCache.lookup, List.find?_cons,
      find?_filter_ne]
    by_cases h : w.id = id <;> simp [WorkspaceRootsCache.lookup, h]

theorem lookup_removeWorkspaceRoots (gone : String) :
    (slot.removeWorkspaceRoots gone).lookup id =
      if gone = id then none else slot.lookup id := by
  rcases slot with _ | map
  · simp [WorkspaceRootsCache.removeWorkspaceRoots, WorkspaceRootsCache.lookup]
  · rw [WorkspaceRootsCache.removeWorkspaceRoots, WorkspaceRootsCache.lookup, find?_filter_ne]
    by_cases h : gone = id <;> simp [WorkspaceRootsCache.lookup, h]

theorem lookup_applyWorkspacePush (p : WorkspacePush) :
    (slot.applyWorkspacePush s p).lookup id = p.act s id (slot.lookup id) := by
  rcases p with w | w | removed
  · exact lookup_upsertWorkspaceRoots w
  · exact lookup_upsertWorkspaceRoots w
  · exact lookup_removeWorkspaceRoots removed

theorem lookup_applyReply (r : WorkspaceReply) :
    (slot.applyReply s r).lookup id = (r.tells s id).getD (slot.lookup id) := by
  rcases r with list | w | gone | code
  · simp [WorkspaceRootsCache.applyReply, WorkspaceRootsCache.loadWorkspaceRoots,
      WorkspaceRootsCache.lookup, WorkspaceReply.tells, List.find?_map, Function.comp_def]
  · refine (lookup_upsertWorkspaceRoots w).trans ?_
    by_cases h : w.id = id <;> simp [WorkspaceReply.tells, h]
  · refine (lookup_removeWorkspaceRoots gone).trans ?_
    by_cases h : gone = id <;> simp [WorkspaceReply.tells, h]
  · rfl

theorem plain_act (p : WorkspacePush) : Replica.Plain (WorkspacePush.act s id) p := by
  rcases p with w | w | gone
  · by_cases h : w.id = id <;> simp [Replica.Plain, WorkspacePush.act, h]
  · by_cases h : w.id = id <;> simp [Replica.Plain, WorkspacePush.act, h]
  · by_cases h : gone = id <;> simp [Replica.Plain, WorkspacePush.act, h]

theorem act_of_ne {p : WorkspacePush} (h : p.workspaceId ≠ id) (v : Option (List PathBuf)) :
    p.act s id v = v := by
  rcases p with w | w | gone <;> exact if_neg h

/-- A push about the workspace gives it its roots whatever they were. -/
theorem act_const {p : WorkspacePush} (h : p.workspaceId = id) (v w : Option (List PathBuf)) :
    p.act s id v = p.act s id w := by
  rcases p with u | u | gone <;> exact (if_pos h).trans (if_pos h).symm

theorem speaksOf_of_tells {r : WorkspaceReply} {v : Option (List PathBuf)}
    (hv : v ∈ r.tells s id) : r.speaksOf id = true := by
  rcases r with list | w | gone | code
  · rfl
  · exact decide_eq_true (Option.ite_none_right_eq_some.1 hv).1
  · exact decide_eq_true (Option.ite_none_right_eq_some.1 hv).1
  · cases hv

theorem tells_of_speaksOf {r : WorkspaceReply} (h : r.speaksOf id = true) :
    ∃ v, v ∈ r.tells s id := by
  rcases r with list | w | gone | code
  · exact ⟨_, rfl⟩
  · exact ⟨_, if_pos (of_decide_eq_true h)⟩
  · exact ⟨_, if_pos (of_decide_eq_true h)⟩
  · cases h

end Words

namespace WorkspaceTable

variable {s : FileTree} {d : WorkspaceTable s} {id : String}

theorem map_canonicalRootStr {w : WorkspaceRoots}
    (h : ∀ root ∈ w.roots, canonicalRootStr s root = root) :
    w.roots.map (canonicalRootStr s) = w.roots :=
  (List.map_congr_left h).trans (List.map_id _)

theorem rootsOf_put (w : WorkspaceRoots) (h : ∀ root ∈ w.roots, canonicalRootStr s root = root) :
    (d.put w h).rootsOf id = if w.id = id then some w.roots else d.rootsOf id := by
  rw [rootsOf, put, KeyedTable.lookup_upsert]
  by_cases hid : id = w.id
  · simp [hid]
  · rw [if_neg hid, if_neg (Ne.symm hid), rootsOf]

theorem rootsOf_erase (gone : String) :
    (d.erase gone).rootsOf id = if gone = id then none else d.rootsOf id := by
  rw [rootsOf, erase, KeyedTable.lookup_erase]
  by_cases hid : id = gone
  · simp [hid]
  · rw [if_neg hid, if_neg (Ne.symm hid), rootsOf]

/-- The reply and the push of a request say what the daemon has after it. -/
structure Tells (d : WorkspaceTable s)
    (r : WorkspaceTable s × WorkspaceReply × Option WorkspacePush) : Prop where
  push : ∀ id, r.1.rootsOf id = r.2.2.elim (d.rootsOf id) fun p => p.act s id (d.rootsOf id)
  reply : ∀ id, ∀ v ∈ r.2.1.tells s id, v = r.1.rootsOf id

theorem tells_error (code : String) : Tells d (d, .error code, none) :=
  ⟨fun _ => rfl, fun _ _ h => by cases h⟩

theorem tells_put {w : WorkspaceRoots} (h : ∀ root ∈ w.roots, canonicalRootStr s root = root)
    {p : WorkspacePush} (hp : p = .workspaceCreated w ∨ p = .workspaceUpdated w) :
    Tells d (d.put w h, .workspace w, some p) := by
  constructor
  · intro id
    rw [rootsOf_put]
    rcases hp with rfl | rfl <;> simp only [Option.elim_some, WorkspacePush.act,
      map_canonicalRootStr h]
  · intro id v hv
    rw [rootsOf_put]
    obtain ⟨hid, ⟨⟩⟩ := Option.ite_none_right_eq_some.1 hv
    rw [if_pos hid, map_canonicalRootStr h]

/-- A workspace that stays as it is. -/
theorem tells_same {w : WorkspaceRoots} (hw : d.table.lookup id = some w) :
    Tells d (d, .workspace w, some (.workspaceUpdated w)) := by
  have h := d.canonical w (KeyedTable.lookup_eq_some.1 hw).1
  have hroots : d.rootsOf w.id = some w.roots := by
    rw [rootsOf, KeyedTable.key_eq hw, hw, Option.map_some]
  constructor
  · intro k
    by_cases hk : w.id = k
    · simp [WorkspacePush.act, hk, ← hroots, map_canonicalRootStr h]
    · simp [WorkspacePush.act, hk]
  · intro k v hv
    obtain ⟨rfl, ⟨⟩⟩ := Option.ite_none_right_eq_some.1 hv
    change _ = d.rootsOf w.id
    rw [map_canonicalRootStr h, hroots]

theorem tells_serve (d : WorkspaceTable s) (r : WorkspaceRequest) : Tells d (d.serve r) := by
  cases r with
  | listWorkspaces =>
    refine ⟨fun _ => rfl, fun id v hv => ?_⟩
    obtain rfl := Option.some.inj hv
    show (d.table.lookup id).map _ = (d.table.lookup id).map _
    rcases hw : d.table.lookup id with _ | w
    · rfl
    · have h := d.canonical w (KeyedTable.lookup_eq_some.1 hw).1
      simp [map_canonicalRootStr h]
  | createWorkspace rootPath id =>
    rw [serve]
    split
    · exact tells_error _
    · exact tells_put _ (.inl rfl)
  | addWorkspaceRoot id path =>
    rw [serve]
    split
    · exact tells_error _
    · exact tells_error _
    · split_ifs
      · exact tells_same ‹_›
      · exact tells_put _ (.inr rfl)
  | removeWorkspaceRoot id path =>
    rw [serve]
    split
    · exact tells_error _
    · dsimp only
      split_ifs
      · exact tells_same ‹_›
      · exact tells_error _
      · exact tells_put _ (.inr rfl)
  | removeWorkspace id =>
    rw [serve]
    split
    · exact tells_error _
    · refine ⟨fun k => rootsOf_erase id, fun k v hv => ?_⟩
      obtain ⟨hk, ⟨⟩⟩ := Option.ite_none_right_eq_some.1 hv
      rw [rootsOf_erase, if_pos hk]

theorem nodup_of_serve (d : WorkspaceTable s) {r : WorkspaceRequest} {list : List WorkspaceRoots}
    (h : (d.serve r).2.1 = .workspaces list) : (list.map WorkspaceRoots.id).Nodup := by
  cases r with
  | listWorkspaces =>
    obtain rfl := WorkspaceReply.workspaces.inj h
    exact d.table.nodup
  | createWorkspace rootPath id =>
    rw [serve] at h
    split at h <;> cases h
  | addWorkspaceRoot id path =>
    rw [serve] at h
    split at h
    · cases h
    · cases h
    · split_ifs at h
  | removeWorkspaceRoot id path =>
    rw [serve] at h
    split at h
    · cases h
    · dsimp only at h
      split_ifs at h
  | removeWorkspace id =>
    rw [serve] at h
    split at h <;> cases h

end WorkspaceTable

end BuilderPro
