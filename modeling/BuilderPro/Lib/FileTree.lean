import Mathlib.Data.List.Basic
import Mathlib.Data.List.Induction
import Mathlib.Tactic.Common

/-!
# File trees

Directories, files and symbolic links, each found by the names on the way from the root.  A path is
resolved component by component, and each link on the way by resolving its target
(`FileTree.canonicalize`).  What is resolved is no link (`FileTree.isReal_of_canonicalize`), and a
path whose last name is no link resolves to that name in its parent directory
(`FileTree.canonicalize_concat`).
-/

/-- A path by its components; a path that begins with `rootDir` is absolute. -/
inductive PathComponent
  | rootDir
  | curDir
  | parentDir
  | normal (name : String)
  deriving DecidableEq

inductive FileNode
  | dir
  | file (content : List UInt8)
  | link (target : List PathComponent)
  deriving DecidableEq

/-- The entries by the names on the way to them, the directory relative paths start from, and how
many links a path may go through. -/
structure FileTree where
  node : List String → Option FileNode
  paths : List (List String)
  cwd : List String
  maxLinks : ℕ
  node_root : node [] = some .dir
  node_parent : ∀ p name, node (p ++ [name]) ≠ none → node p = some .dir
  mem_paths : ∀ p, node p ≠ none → p ∈ paths

/-- The path of an entry. -/
def absolutePath (p : List String) : List PathComponent := .rootDir :: p.map .normal

namespace FileTree

variable (s : FileTree)

/-- The components of a path, one after another from a directory; `follow` resolves what a link
leaves. -/
def walk (follow : List String → List PathComponent → Option (List String)) :
    List String → List PathComponent → Option (List String)
  | cur, [] => some cur
  | _, .rootDir :: rest => walk follow [] rest
  | cur, .curDir :: rest => if s.node cur = some .dir then walk follow cur rest else none
  | cur, .parentDir :: rest =>
    if s.node cur = some .dir then walk follow cur.dropLast rest else none
  | cur, .normal name :: rest =>
    match s.node (cur ++ [name]) with
    | none => none
    | some (.link target) => follow cur (target ++ rest)
    | some _ => walk follow (cur ++ [name]) rest

/-- Resolves a path that goes through so many links. -/
def resolve : ℕ → List String → List PathComponent → Option (List String)
  | 0 => s.walk fun _ _ => none
  | n + 1 => s.walk (resolve n)

/-- `realpath`: the entry a path leads to, every link followed. -/
def canonicalize (path : List PathComponent) : Option (List String) :=
  if path = [] then none else s.resolve s.maxLinks s.cwd path

/-- Something other than a link. -/
def IsReal (p : List String) : Prop :=
  s.node p ≠ none ∧ ∀ target, s.node p ≠ some (.link target)

def isLink (p : List String) : Bool :=
  match s.node p with
  | some (.link _) => true
  | _ => false

/-- What lies under an entry is taken out of the tree with it. -/
def remove (p : List String) (hp : p ≠ []) : FileTree where
  node q := if p <+: q then none else s.node q
  paths := s.paths
  cwd := s.cwd
  maxLinks := s.maxLinks
  node_root := by
    rw [if_neg (by simpa using hp)]
    exact s.node_root
  node_parent q name h := by
    split_ifs at h with hq
    · exact absurd rfl h
    · rw [if_neg fun hpq => hq (hpq.trans (List.prefix_append q [name]))]
      exact s.node_parent q name h
  mem_paths q h := by
    split_ifs at h
    · exact absurd rfl h
    · exact s.mem_paths q h

/-- A place an entry can be moved to. -/
structure CanMove (source target : List String) : Prop where
  source_ne : source ≠ []
  target_ne : target ≠ []
  parent : s.node target.dropLast = some .dir
  outside : ¬source <+: target

instance (source target : List String) : Decidable (s.CanMove source target) :=
  decidable_of_iff (source ≠ [] ∧ target ≠ [] ∧ s.node target.dropLast = some .dir
    ∧ ¬source <+: target) ⟨fun ⟨h₁, h₂, h₃, h₄⟩ => ⟨h₁, h₂, h₃, h₄⟩, fun h => ⟨h.1, h.2, h.3, h.4⟩⟩

/-- An entry, and what lies under it, is found under another path instead of what was there. -/
def relocate (source target : List String) (h : s.CanMove source target) : FileTree where
  node q :=
    if target <+: q then s.node (source ++ q.drop target.length)
    else if source <+: q then none
    else s.node q
  paths := s.paths ++ s.paths.map fun q => target ++ q.drop source.length
  cwd := s.cwd
  maxLinks := s.maxLinks
  node_root := by
    rw [if_neg (by simpa using h.target_ne), if_neg (by simpa using h.source_ne)]
    exact s.node_root
  node_parent q name hq := by
    by_cases ht : target <+: q ++ [name]
    · rw [if_pos ht] at hq
      rcases List.prefix_concat_iff.1 ht with heq | ht
      · have hparent := h.parent
        rw [heq, List.dropLast_concat] at hparent
        have hlt : ¬target <+: q := by
          intro hpre
          have hle := hpre.length_le
          rw [heq, List.length_append] at hle
          exact Nat.not_succ_le_self _ hle
        have hout : ¬source <+: q := by
          intro hpre
          exact h.outside (hpre.trans (heq ▸ List.prefix_append q [name]))
        rw [if_neg hlt, if_neg hout]
        exact hparent
      · rw [if_pos ht]
        rw [List.drop_append_of_le_length ht.length_le, ← List.append_assoc] at hq
        exact s.node_parent _ name hq
    · have ht' : ¬target <+: q := fun hpre => ht (hpre.trans (List.prefix_append q [name]))
      rw [if_neg ht] at hq
      split_ifs at hq with hs
      · exact absurd rfl hq
      · rw [if_neg ht', if_neg fun hpre => hs (hpre.trans (List.prefix_append q [name]))]
        exact s.node_parent q name hq
  mem_paths q hq := by
    rw [List.mem_append]
    split_ifs at hq with ht hs
    · refine .inr (List.mem_map.2 ⟨_, s.mem_paths _ hq, ?_⟩)
      rw [List.drop_left]
      obtain ⟨r, rfl⟩ := ht
      rw [List.drop_left]
    · exact absurd rfl hq
    · exact .inl (s.mem_paths q hq)

/-- A new entry in a directory. -/
structure CanInsert (p : List String) : Prop where
  ne : p ≠ []
  parent : s.node p.dropLast = some .dir
  free : s.node p = none

instance (p : List String) : Decidable (s.CanInsert p) :=
  decidable_of_iff (p ≠ [] ∧ s.node p.dropLast = some .dir ∧ s.node p = none)
    ⟨fun ⟨h₁, h₂, h₃⟩ => ⟨h₁, h₂, h₃⟩, fun h => ⟨h.1, h.2, h.3⟩⟩

def insert (p : List String) (n : FileNode) (h : s.CanInsert p) : FileTree where
  node q := if q = p then some n else s.node q
  paths := p :: s.paths
  cwd := s.cwd
  maxLinks := s.maxLinks
  node_root := by
    rw [if_neg h.ne.symm]
    exact s.node_root
  node_parent q name hq := by
    have hdir : s.node q = some .dir := by
      split_ifs at hq with heq
      · have hparent := h.parent
        rwa [← heq, List.dropLast_concat] at hparent
      · exact s.node_parent q name hq
    rw [if_neg]
    · exact hdir
    · rintro rfl
      rw [h.free] at hdir
      cases hdir
  mem_paths q hq := by
    split_ifs at hq with heq
    · exact heq ▸ List.mem_cons_self
    · exact List.mem_cons_of_mem p (s.mem_paths q hq)

/-- A tree of the root alone. -/
def empty (cwd : List String) (maxLinks : ℕ) : FileTree where
  node p := if p = [] then some .dir else none
  paths := [[]]
  cwd := cwd
  maxLinks := maxLinks
  node_root := rfl
  node_parent p name h := by simp at h
  mem_paths p h := by simpa using h

variable {s} {p q cur : List String} {xs ys : List PathComponent} {name : String}
  {follow : List String → List PathComponent → Option (List String)}

/-- What lies above an entry are directories. -/
theorem node_of_append {r : List String} (h : s.node (p ++ r) ≠ none) (hr : r ≠ []) :
    s.node p = some .dir := by
  induction r using List.reverseRecOn with
  | nil => exact absurd rfl hr
  | append_singleton r name ih =>
    have hdir := s.node_parent (p ++ r) name (by rwa [← List.append_assoc] at h)
    by_cases hnil : r = []
    · simpa [hnil] using hdir
    · exact ih (by simp [hdir]) hnil

theorem node_of_prefix (hpre : p <+: q) (h : s.node q ≠ none) : s.node p ≠ none := by
  obtain ⟨r, rfl⟩ := hpre
  by_cases hr : r = []
  · simpa [hr] using h
  · simp [node_of_append h hr]

theorem isReal_root : s.IsReal [] := by
  simp [IsReal, s.node_root]

theorem isReal_of_dir (h : s.node p = some .dir) : s.IsReal p := by
  simp [IsReal, h]

theorem isReal_of_isPrefix (hpre : p <+: q) (h : s.IsReal q) : s.IsReal p := by
  obtain ⟨r, rfl⟩ := hpre
  by_cases hr : r = []
  · simpa [hr] using h
  · exact isReal_of_dir (node_of_append h.1 hr)

theorem isReal_dropLast (h : s.IsReal p) : s.IsReal p.dropLast :=
  isReal_of_isPrefix (List.dropLast_prefix p) h

theorem IsReal.isLink (h : s.IsReal p) : s.isLink p = false := by
  unfold FileTree.isLink
  split
  · rename_i target htarget
    exact absurd htarget (h.2 target)
  · rfl

/-- Nothing lies under a link. -/
theorem not_prefix_of_isLink (hlink : s.isLink p = true) (hq : s.IsReal q) : ¬p <+: q := by
  rintro ⟨r, rfl⟩
  by_cases hr : r = []
  · rw [hr, List.append_nil] at hq
    rw [hq.isLink] at hlink
    cases hlink
  · simp [FileTree.isLink, node_of_append hq.1 hr] at hlink

/-- What follows a link resolves to something real. -/
theorem isReal_of_walk (hfollow : ∀ cur xs q, s.IsReal cur → follow cur xs = some q → s.IsReal q)
    (hcur : s.IsReal cur) (h : s.walk follow cur xs = some q) : s.IsReal q := by
  induction xs generalizing cur with
  | nil =>
    obtain rfl : cur = q := by simpa [walk] using h
    exact hcur
  | cons x xs ih =>
    cases x with
    | rootDir => exact ih isReal_root h
    | curDir =>
      rw [walk, Option.ite_none_right_eq_some] at h
      exact ih hcur h.2
    | parentDir =>
      rw [walk, Option.ite_none_right_eq_some] at h
      exact ih (isReal_dropLast hcur) h.2
    | normal name =>
      rw [walk] at h
      split at h
      · cases h
      · exact hfollow _ _ _ hcur h
      · rename_i n hn hnode
        refine ih ⟨by simp [hnode], fun target htarget => ?_⟩ h
        rw [hnode] at htarget
        exact hn target (Option.some.inj htarget)

theorem isReal_of_resolve {n : ℕ} (hcur : s.IsReal cur) (h : s.resolve n cur xs = some q) :
    s.IsReal q := by
  induction n generalizing cur xs q with
  | zero => exact isReal_of_walk (fun _ _ _ _ h => by cases h) hcur h
  | succ n ih => exact isReal_of_walk (fun _ _ _ hcur h => ih hcur h) hcur h

/-- A path is resolved by resolving what comes first and then, through what links are left, the
rest. -/
theorem walk_append (hfollow : ∀ cur xs q, follow cur (xs ++ ys) = some q →
      ∃ m p, follow cur xs = some p ∧ s.resolve m p ys = some q)
    {n : ℕ} (hn : s.walk follow = s.resolve n) (h : s.walk follow cur (xs ++ ys) = some q) :
    ∃ m p, s.walk follow cur xs = some p ∧ s.resolve m p ys = some q := by
  induction xs generalizing cur with
  | nil => exact ⟨n, cur, rfl, hn ▸ h⟩
  | cons x xs ih =>
    cases x with
    | rootDir => exact ih h
    | curDir =>
      rw [List.cons_append, walk, Option.ite_none_right_eq_some] at h
      rw [walk, if_pos h.1]
      exact ih h.2
    | parentDir =>
      rw [List.cons_append, walk, Option.ite_none_right_eq_some] at h
      rw [walk, if_pos h.1]
      exact ih h.2
    | normal name =>
      rw [List.cons_append, walk] at h
      rw [walk]
      split at h
      · cases h
      · exact hfollow _ _ _ (by rwa [List.append_assoc])
      · exact ih h

theorem resolve_append {n : ℕ} (h : s.resolve n cur (xs ++ ys) = some q) :
    ∃ m p, s.resolve n cur xs = some p ∧ s.resolve m p ys = some q := by
  induction n generalizing cur xs q with
  | zero => exact walk_append (fun _ _ _ h => by cases h) (n := 0) rfl h
  | succ n ih => exact walk_append (fun _ _ _ h => ih h) (n := n + 1) rfl h

theorem exists_resolve_eq (s : FileTree) (n : ℕ) : ∃ follow, s.resolve n = s.walk follow := by
  cases n with
  | zero => exact ⟨_, rfl⟩
  | succ n => exact ⟨_, rfl⟩

theorem isReal_of_canonicalize {path : List PathComponent} (h : s.canonicalize path = some q) :
    s.IsReal q := by
  unfold canonicalize at h
  split_ifs at h with hnil
  obtain ⟨x, xs, rfl⟩ := List.exists_cons_of_ne_nil hnil
  obtain ⟨follow, hfollow⟩ := exists_resolve_eq s s.maxLinks
  -- a path that is not absolute resolves from a directory alone
  have hfrom : s.IsReal s.cwd ∨ x = .rootDir := by
    rw [hfollow] at h
    cases x with
    | rootDir => exact .inr rfl
    | curDir =>
      rw [walk, Option.ite_none_right_eq_some] at h
      exact .inl (isReal_of_dir h.1)
    | parentDir =>
      rw [walk, Option.ite_none_right_eq_some] at h
      exact .inl (isReal_of_dir h.1)
    | normal name =>
      refine .inl (isReal_of_dir (s.node_parent s.cwd name fun hnone => ?_))
      rw [walk, hnone] at h
      cases h
  rcases hfrom with hcwd | rfl
  · exact isReal_of_resolve hcwd h
  · have hroot : s.resolve s.maxLinks [] xs = some q := by
      rwa [hfollow, walk, ← hfollow] at h
    exact isReal_of_resolve isReal_root hroot

theorem exists_of_resolve_normal {n : ℕ} (h : s.resolve n cur [.normal name] = some q) :
    s.node (cur ++ [name]) ≠ none ∧ (s.isLink (cur ++ [name]) = false → q = cur ++ [name]) := by
  obtain ⟨follow, hfollow⟩ := exists_resolve_eq s n
  rw [hfollow, walk] at h
  split at h
  · cases h
  · rename_i hnode
    refine ⟨by simp [hnode], fun hlink => ?_⟩
    simp [FileTree.isLink, hnode] at hlink
  · rename_i hnode
    rw [walk] at h
    exact ⟨by simp [hnode], fun _ => (Option.some.inj h).symm⟩

/-- What a path leads to whose last name is no link. -/
theorem canonicalize_concat (hxs : xs ≠ []) (h : s.canonicalize (xs ++ [.normal name]) = some q) :
    ∃ d, s.canonicalize xs = some d ∧ s.node (d ++ [name]) ≠ none
      ∧ (s.isLink (d ++ [name]) = false → q = d ++ [name]) := by
  rw [canonicalize, if_neg (by simp)] at h
  obtain ⟨m, d, hd, hq⟩ := resolve_append h
  exact ⟨d, by rw [canonicalize, if_neg hxs, hd], exists_of_resolve_normal hq⟩

theorem walk_map_normal {follow : List String → List PathComponent → Option (List String)}
    (h : s.IsReal (cur ++ p)) : s.walk follow cur (p.map .normal) = some (cur ++ p) := by
  induction p generalizing cur with
  | nil => rw [List.map_nil, walk, List.append_nil]
  | cons name p ih =>
    rw [List.append_cons] at h
    have hreal : s.IsReal (cur ++ [name]) := isReal_of_isPrefix (List.prefix_append _ p) h
    rw [List.map_cons, walk, List.append_cons cur name p]
    split
    · rename_i hnone
      exact absurd hnone hreal.1
    · rename_i target htarget
      exact absurd htarget (hreal.2 target)
    · exact ih h

/-- The path of what is no link resolves to it. -/
theorem canonicalize_absolutePath (h : s.IsReal p) : s.canonicalize (absolutePath p) = some p := by
  obtain ⟨follow, hfollow⟩ := exists_resolve_eq s s.maxLinks
  rw [canonicalize, if_neg (by simp [absolutePath]), hfollow, absolutePath, walk]
  exact walk_map_normal h

/-- So does every path on the way to it. -/
theorem canonicalize_of_prefix (h : s.IsReal p) (hxs : xs ≠ []) (hpre : xs <+: absolutePath p) :
    ∃ q, s.canonicalize xs = some q ∧ q <+: p := by
  obtain ⟨x, ys, rfl⟩ := List.exists_cons_of_ne_nil hxs
  obtain ⟨rfl, hys⟩ := List.cons_prefix_cons.1 hpre
  obtain ⟨q, hq, rfl⟩ := List.prefix_map_iff.1 hys
  exact ⟨q, canonicalize_absolutePath (isReal_of_isPrefix hq h), hq⟩

end FileTree
