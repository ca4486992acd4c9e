import BuilderPro.Lib.KeyedTable
import BuilderPro.Lib.Utf8Lossy
import Mathlib.Algebra.Order.Ring.Nat
import Mathlib.Data.Finset.Sort
import Mathlib.Data.String.Basic

/-!
# What a watch tells of a batch

`build_changed_events` of `fs_watcher.rs`: each path of a batch goes to the watched root with the
longest canonical prefix, and is told under it unless it is git's own or ignored.  A batch loses
nothing if what its paths ask for is told, to every root, and nothing else
(`FsWatch.Watch.LosesNothing`).
-/

namespace BuilderPro

namespace FsWatch

/-- A name on a path. -/
structure Name where
  bytes : List UInt8
  ne_nil : bytes ≠ []
  slash_notMem : 0x2f ∉ bytes
  deriving DecidableEq

/-- An absolute path, or one below a directory, by its names. -/
abbrev NamePath := List Name

inductive IgnoreMatch
  | none
  | ignore
  | whitelist
  deriving DecidableEq, Repr

/-- `Gitignore::matched`, of a path and whether it is a directory. -/
abbrev Gitignore := NamePath → Bool → IgnoreMatch

def Gitignore.empty : Gitignore := fun _ _ => .none

/-- What the machine answers: the last is what `GitignoreBuilder` makes of a root's `.gitignore`. -/
structure FileSystem where
  canonicalize : String → Except String NamePath
  pathExists : NamePath → Bool
  isDir : NamePath → Bool
  isFile : NamePath → Bool
  buildGitignore : NamePath → Option Gitignore

/-- A root as it was asked for, its canonical path, and what is ignored under it. -/
structure RootMatcher where
  root : String
  rootPath : NamePath
  gitignore : Gitignore

inductive FsEvent
  | changed (root : String) (relPaths : List String)
  | watchError (root reason : String)
  deriving DecidableEq, Repr

def watchPathCap : ℕ := 500

/-- `.git`. -/
def dotGit : Name := ⟨[0x2e, 0x67, 0x69, 0x74], by simp, by decide⟩

/-- `.gitignore`. -/
def dotGitignore : Name :=
  ⟨[0x2e, 0x67, 0x69, 0x74, 0x69, 0x67, 0x6e, 0x6f, 0x72, 0x65], by simp, by decide⟩

section Start

variable (fs : FileSystem)

def buildRootGitignore (rootPath : NamePath) : Gitignore :=
  if !fs.pathExists (rootPath ++ [dotGit]) then .empty
  else if !fs.isFile (rootPath ++ [dotGitignore]) then .empty
  else (fs.buildGitignore rootPath).getD .empty

def buildRootMatchers : List String → List RootMatcher × List FsEvent
  | [] => ([], [])
  | root :: roots =>
    let (out, events) := buildRootMatchers roots
    match fs.canonicalize root with
    | .ok rootPath => (⟨root, rootPath, buildRootGitignore fs rootPath⟩ :: out, events)
    | .error e => (out, .watchError root ("cannot watch " ++ root ++ ": " ++ e) :: events)

end Start

/-! ### A batch -/

/-- `Path::strip_prefix`. -/
def stripPrefix (base path : NamePath) : Option NamePath :=
  if base <+: path then some (path.drop base.length) else none

/-- The bytes of a path below a directory. -/
def relBytes (rel : NamePath) : List UInt8 := [0x2f].intercalate (rel.map Name.bytes)

/-- The length of an absolute path's text. -/
def osLen (path : NamePath) : ℕ :=
  if path = [] then 1 else (path.map fun n => n.bytes.length + 1).sum

/-- `Iterator::max_by_key`: of the elements with the greatest key, the last. -/
def maxByKey {α : Type} (key : α → ℕ) : List α → Option α
  | [] => none
  | a :: l =>
    match maxByKey key l with
    | none => some a
    | some b => if key b < key a then some a else some b

def isGitInternal (rel : NamePath) : Bool := dotGit ∈ rel

def relToWireString (rel : NamePath) : String :=
  (Utf8.decodeLossy (relBytes rel)).map fun c => if c = '\\' then '/' else c

/-- `Path::display`, of an absolute path. -/
def displayPath (path : NamePath) : String := Utf8.decodeLossy (0x2f :: relBytes path)

/-- The root a path belongs to, and the path below it. -/
def route (roots : List RootMatcher) (path : NamePath) : Option (RootMatcher × NamePath) :=
  maxByKey (fun x => osLen x.1.rootPath)
    (roots.filterMap fun m => (stripPrefix m.rootPath path).map fun rel => (m, rel))

/-- What is noted while a batch is gone through: the entries of the roots' buckets, none of which is
empty, and the first path of each root that has vanished. -/
structure Batch where
  buckets : Finset (String × String)
  vanishedRoots : KeyedTable (Prod.fst : String × NamePath → String)

def Batch.empty : Batch := ⟨∅, .empty⟩

section Handler

variable (fs : FileSystem) (roots : List RootMatcher) (showIgnored : Bool)

def Batch.note (b : Batch) (path : NamePath) : Batch :=
  match route roots path with
  | none => b
  | some (m, rel) =>
    if isGitInternal rel then b
    else if relToWireString rel = "" then
      if fs.pathExists path then { b with buckets := insert (m.root, "*") b.buckets }
      else { b with
        vanishedRoots := (b.vanishedRoots.insert (m.root, path)).getD b.vanishedRoots }
    else if m.gitignore rel (fs.isDir path) = .ignore ∧ !showIgnored then b
    else { b with buckets := insert (m.root, relToWireString rel) b.buckets }

/-- A root's bucket. -/
def Batch.bucket (b : Batch) (root : String) : Finset String :=
  (b.buckets.filter fun x => x.1 = root).image Prod.snd

/-- The paths a bucket is told with. -/
def bucketPaths (set : Finset String) : List String :=
  if watchPathCap < set.card ∨ "*" ∈ set then ["*"] else set.sort

def Batch.events (b : Batch) : List FsEvent :=
  ((b.buckets.image Prod.fst).sort.map fun root => .changed root (bucketPaths (b.bucket root)))
    ++ (b.vanishedRoots.rows.mergeSort fun x y => x.1 ≤ y.1).map fun x =>
      .watchError x.1 ("watched root no longer exists: " ++ displayPath x.2)

def buildChangedEvents (rawPaths : List NamePath) : List FsEvent :=
  (rawPaths.foldl (Batch.note fs roots showIgnored) .empty).events

end Handler

/-! ### What is asked for -/

/-- A watch of some roots: the file system it started with and the one its batches come from. -/
structure Watch where
  started : FileSystem
  now : FileSystem
  roots : List String
  showIgnored : Bool

namespace Watch

variable (w : Watch)

def matchers : List RootMatcher := (buildRootMatchers w.started w.roots).1

def events (rawPaths : List NamePath) : List FsEvent :=
  buildChangedEvents w.now w.matchers w.showIgnored rawPaths

/-- A path belongs to the root with the longest canonical prefix of it. -/
structure Owns (c path : NamePath) : Prop where
  watched : ∃ root ∈ w.roots, w.started.canonicalize root = .ok c
  below : c <+: path
  longest : ∀ root ∈ w.roots, ∀ d, w.started.canonicalize root = .ok d → d <+: path →
    d.length ≤ c.length

/-- A path, or a directory it lies in below the root, is ignored. -/
def IgnoredWithin (gitignore : Gitignore) (rel : NamePath) (isDir : Bool) : Prop :=
  ∃ a, a ≠ [] ∧ a <+: rel ∧ gitignore a (a ≠ rel || isDir) = .ignore

/-- A path that is to be told. -/
structure Wanted (c path : NamePath) : Prop where
  notGit : dotGit ∉ path.drop c.length
  notIgnored : w.showIgnored = false →
    ¬IgnoredWithin (buildRootGitignore w.started c) (path.drop c.length) (w.now.isDir path)

/-- An event covers a path below a root. -/
def Covers (root : String) (rel : NamePath) : FsEvent → Prop
  | .changed r relPaths =>
    r = root ∧ ((∃ s ∈ relPaths, Utf8.bytes s = relBytes rel) ∨ "*" ∈ relPaths)
  | .watchError r _ => r = root

/-- A path whose names are told as they are. -/
def Plain (rel : NamePath) : Prop := (Utf8.decode (relBytes rel)).isSome ∧ 0x5c ∉ relBytes rel

open scoped Classical

/-- The paths of a batch that are to be told, with those that belong to no root. -/
noncomputable def wantedPaths (rawPaths : List NamePath) : List NamePath :=
  rawPaths.filter fun path => ∀ c, w.Owns c path → w.Wanted c path

/-- What the paths to be told below a root are told as. -/
noncomputable def wires (rawPaths : List NamePath) (c : NamePath) : Finset String :=
  ((rawPaths.filter fun path => w.Owns c path ∧ w.Wanted c path ∧ path ≠ c).map
    fun path => relToWireString (path.drop c.length)).toFinset

/-- A root is told to refresh as a whole: an event is on the root itself, or a path is told as the
sentinel, or there are too many. -/
def Wholesale (rawPaths : List NamePath) (c : NamePath) : Prop :=
  c ∈ rawPaths ∧ w.now.pathExists c ∨ "*" ∈ w.wires rawPaths c ∨
    watchPathCap < (w.wires rawPaths c).card

/-- Every path of a batch that is to be told is told to every root it belongs to, the others cause
no event, no root is told of a path that is not its own, and none of too many. -/
structure LosesNothing (rawPaths : List NamePath) : Prop where
  covered : ∀ path ∈ rawPaths, ∀ c, w.Owns c path → w.Wanted c path → ∀ root ∈ w.roots,
    w.started.canonicalize root = .ok c →
      ∃ ev ∈ w.events rawPaths, Covers root (path.drop c.length) ev
  silent : w.events (w.wantedPaths rawPaths) = w.events rawPaths
  owned : ∀ root relPaths, .changed root relPaths ∈ w.events rawPaths →
    ∃ c, w.started.canonicalize root = .ok c ∧ (∃ path ∈ rawPaths, w.Owns c path) ∧
      ∀ s ∈ relPaths, s ≠ "*" →
        ∃ path ∈ rawPaths, w.Owns c path ∧ Utf8.bytes s = relBytes (path.drop c.length)
  capped : ∀ root relPaths, .changed root relPaths ∈ w.events rawPaths →
    relPaths.length ≤ watchPathCap

/-- A batch that can be told in full. -/
structure Tellable (rawPaths : List NamePath) : Prop where
  oneSpelling : ∀ path ∈ rawPaths, ∀ c, w.Owns c path → w.Wanted c path →
    ∀ root ∈ w.roots, w.started.canonicalize root = .ok c →
      ∀ other ∈ w.roots, w.started.canonicalize other = .ok c → other = root
  plain : ∀ path ∈ rawPaths, ∀ c, w.Owns c path → w.Wanted c path →
    Plain (path.drop c.length) ∨ w.Wholesale rawPaths c ∨
      (c ∈ rawPaths ∧ ¬w.now.pathExists c) ∧ ∃ other ∈ rawPaths, w.Owns c other ∧
        relBytes (other.drop c.length) = Utf8.bytes (relToWireString (path.drop c.length))
  ignoredThemselves : ∀ path ∈ rawPaths, ∀ c, w.Owns c path → ¬w.Wanted c path →
    dotGit ∈ path.drop c.length ∨
      buildRootGitignore w.started c (path.drop c.length) (w.now.isDir path) = .ignore ∨
      w.Wholesale rawPaths c ∨
      relToWireString (path.drop c.length) ∈ w.wires rawPaths c

end Watch

end FsWatch

end BuilderPro
