import BuilderPro.Lib.FileTree

/-!
# Writing to file trees

New entries leave every path that resolved where it led (`FileTree.Extends.canonicalize`).  Where
files take the place of other files and of links, a path that leads to a directory has led to it
before (`FileTree.Narrows.canonicalize`).
-/

namespace FileTree

variable (s : FileTree)

/-- Whether the links' targets are paths, with the root at their head if at all. -/
def Parsed : Prop := ∀ p target, s.node p = some (.link target) → .rootDir ∉ target.tail

/-- The file of a name in a directory; `follow` leads on from a link. -/
def leaf (follow : List String → List PathComponent → Option (List String)) (dir : List String)
    (name : String) : Option (List String) :=
  match s.node (dir ++ [name]) with
  | some (.link target) => follow dir target
  | some _ => some (dir ++ [name])
  | none => if s.node dir = some .dir then some (dir ++ [name]) else none

/-- A path's last name need not be there yet. -/
def placeBy (n : ℕ) (follow : List String → List PathComponent → Option (List String))
    (cur : List String) (xs : List PathComponent) : Option (List String) :=
  match xs.getLast? with
  | some (.normal name) => (s.resolve n cur xs.dropLast).bind fun dir => s.leaf follow dir name
  | _ => s.resolve n cur xs

/-- Where `open(O_CREAT)` finds or puts the file a path names, through so many links. -/
def place : ℕ → List String → List PathComponent → Option (List String)
  | 0 => s.placeBy 0 fun _ _ => none
  | n + 1 => s.placeBy (n + 1) (place n)

/-- A place for a file: a free one, or another file's. -/
structure CanWrite (p : List String) : Prop where
  ne : p ≠ []
  parent : s.node p.dropLast = some .dir
  dir : s.node p ≠ some .dir
  link : s.isLink p = false

instance (p : List String) : Decidable (s.CanWrite p) :=
  decidable_of_iff (p ≠ [] ∧ s.node p.dropLast = some .dir ∧ s.node p ≠ some .dir
    ∧ s.isLink p = false) ⟨fun ⟨h₁, h₂, h₃, h₄⟩ => ⟨h₁, h₂, h₃, h₄⟩,
      fun h => ⟨h.1, h.2, h.3, h.4⟩⟩

/-- A file's content is written, and the file made if there was none. -/
def setFile (p : List String) (content : List UInt8) (h : s.CanWrite p) : FileTree where
  node q := if q = p then some (.file content) else s.node q
  paths := p :: s.paths
  cwd := s.cwd
  maxLinks := s.maxLinks
  node_root := by
    rw [if_neg h.ne.symm]
    exact s.node_root
  node_parent q name hq := by
    have hdir : s.node q = some .dir := by
      split_ifs at hq with heq
      · have hparent := h.parent
        rwa [← heq, List.dropLast_concat] at hparent
      · exact s.node_parent q name hq
    rw [if_neg]
    · exact hdir
    · rintro rfl
      exact h.dir hdir
  mem_paths q hq := by
    split_ifs at hq with heq
    · exact heq ▸ List.mem_cons_self
    · exact List.mem_cons_of_mem p (s.mem_paths q hq)

variable {s} {t u : FileTree} {p q cur d : List String} {xs : List PathComponent} {name : String}
  {follow follow' : List String → List PathComponent → Option (List String)}

/-! ## New entries -/

/-- What is in the one tree is in the other. -/
structure Extends (s t : FileTree) : Prop where
  node : ∀ p n, s.node p = some n → t.node p = some n
  cwd : t.cwd = s.cwd
  maxLinks : t.maxLinks = s.maxLinks

theorem extends_insert {n : FileNode} (h : s.CanInsert p) : Extends s (s.insert p n h) := by
  refine ⟨fun q m hm => ?_, rfl, rfl⟩
  have hne : q ≠ p := by
    rintro rfl
    rw [h.free] at hm
    cases hm
  simpa [insert, hne] using hm

theorem Extends.walk (h : Extends s t)
    (hf : ∀ cur xs q, follow cur xs = some q → follow' cur xs = some q)
    (hw : s.walk follow cur xs = some q) : t.walk follow' cur xs = some q := by
  induction xs generalizing cur with
  | nil => exact hw
  | cons x xs ih =>
    cases x with
    | rootDir => exact ih hw
    | curDir =>
      rw [FileTree.walk, Option.ite_none_right_eq_some] at hw
      rw [FileTree.walk, if_pos (h.node _ _ hw.1)]
      exact ih hw.2
    | parentDir =>
      rw [FileTree.walk, Option.ite_none_right_eq_some] at hw
      rw [FileTree.walk, if_pos (h.node _ _ hw.1)]
      exact ih hw.2
    | normal name =>
      rw [FileTree.walk] at hw
      split at hw
      · cases hw
      · rename_i target hnode
        rw [FileTree.walk, h.node _ _ hnode]
        exact hf _ _ _ hw
      · rename_i n hn hnode
        rw [FileTree.walk, h.node _ _ hnode]
        cases n with
        | link target => exact absurd rfl (hn target)
        | dir => exact ih hw
        | file content => exact ih hw

theorem Extends.resolve (h : Extends s t) {n : ℕ} (hr : s.resolve n cur xs = some q) :
    t.resolve n cur xs = some q := by
  induction n generalizing cur xs q with
  | zero => exact h.walk (fun _ _ _ hf => hf) hr
  | succ n ih => exact h.walk (fun _ _ _ hf => ih hf) hr

theorem Extends.canonicalize (h : Extends s t) (hr : s.canonicalize xs = some q) :
    t.canonicalize xs = some q := by
  unfold FileTree.canonicalize at hr ⊢
  split_ifs at hr ⊢ with hnil
  rw [h.maxLinks, h.cwd]
  exact h.resolve hr

/-- One more name leads on, unless it is a link's. -/
theorem walk_concat (hf : ∀ cur xs, follow cur xs = some d → follow cur (xs ++ [.normal name])
      = some (d ++ [name])) (hreal : s.IsReal (d ++ [name])) (h : s.walk follow cur xs = some d) :
    s.walk follow cur (xs ++ [.normal name]) = some (d ++ [name]) := by
  induction xs generalizing cur with
  | nil =>
    obtain rfl : cur = d := by simpa [walk] using h
    exact walk_map_normal (p := [name]) hreal
  | cons x xs ih =>
    cases x with
    | rootDir => exact ih h
    | curDir =>
      rw [walk, Option.ite_none_right_eq_some] at h
      rw [List.cons_append, walk, if_pos h.1]
      exact ih h.2
    | parentDir =>
      rw [walk, Option.ite_none_right_eq_some] at h
      rw [List.cons_append, walk, if_pos h.1]
      exact ih h.2
    | normal name' =>
      rw [walk] at h
      rw [List.cons_append, walk]
      split at h
      · cases h
      · rw [← List.append_assoc]
        exact hf _ _ h
      · exact ih h

theorem resolve_concat {n : ℕ} (hreal : s.IsReal (d ++ [name]))
    (h : s.resolve n cur xs = some d) :
    s.resolve n cur (xs ++ [.normal name]) = some (d ++ [name]) := by
  induction n generalizing cur xs with
  | zero => exact walk_concat (fun _ _ hf => by cases hf) hreal h
  | succ n ih => exact walk_concat (fun _ _ hf => ih hf) hreal h

theorem canonicalize_snoc (hreal : s.IsReal (d ++ [name])) (h : s.canonicalize xs = some d) :
    s.canonicalize (xs ++ [.normal name]) = some (d ++ [name]) := by
  unfold canonicalize at h ⊢
  split_ifs at h
  rw [if_neg (by simp)]
  exact resolve_concat hreal h

/-! ## Files in the place of others -/

/-- The directories are the same, and no link is new. -/
structure Narrows (s t : FileTree) : Prop where
  dir : ∀ p, t.node p = some .dir ↔ s.node p = some .dir
  link : ∀ p target, t.node p = some (.link target) → s.node p = some (.link target)
  cwd : t.cwd = s.cwd
  maxLinks : t.maxLinks = s.maxLinks

/-- And where there was a link there is that link or something. -/
structure Settles (s t : FileTree) : Prop extends Narrows s t where
  kept : ∀ p target, s.node p = some (.link target) → t.node p ≠ none

theorem Narrows.refl : Narrows s s := ⟨fun _ => Iff.rfl, fun _ _ h => h, rfl, rfl⟩

theorem Settles.refl : Settles s s := ⟨.refl, fun _ _ h => by simp [h]⟩

/-- Nothing but the root leads on from a file. -/
theorem eq_of_walk_file {content : List UInt8} (hcur : s.node cur = some (.file content))
    (hx : .rootDir ∉ xs) (h : s.walk follow cur xs = some q) : q = cur := by
  cases xs with
  | nil => simpa [walk, eq_comm] using h
  | cons x xs =>
    cases x with
    | rootDir => simp at hx
    | curDir => simp [walk, hcur] at h
    | parentDir => simp [walk, hcur] at h
    | normal name =>
      rw [walk] at h
      have hnone : s.node (cur ++ [name]) = none := by
        by_contra hne
        have hdir := s.node_parent cur name hne
        rw [hcur] at hdir
        cases hdir
      rw [hnone] at h
      cases h

theorem Narrows.walk (h : Narrows s t) (hs : s.Parsed)
    (hf : ∀ cur xs q, .rootDir ∉ xs.tail → follow' cur xs = some q → t.node q = some .dir →
      follow cur xs = some q)
    (hx : .rootDir ∉ xs.tail) (hw : t.walk follow' cur xs = some q) (hq : t.node q = some .dir) :
    s.walk follow cur xs = some q := by
  induction xs generalizing cur with
  | nil => exact hw
  | cons x xs ih =>
    have hx' : .rootDir ∉ xs := hx
    have htail : .rootDir ∉ xs.tail := fun hmem => hx' (List.mem_of_mem_tail hmem)
    cases x with
    | rootDir => exact ih htail hw
    | curDir =>
      rw [FileTree.walk, Option.ite_none_right_eq_some] at hw
      rw [FileTree.walk, if_pos ((h.dir _).1 hw.1)]
      exact ih htail hw.2
    | parentDir =>
      rw [FileTree.walk, Option.ite_none_right_eq_some] at hw
      rw [FileTree.walk, if_pos ((h.dir _).1 hw.1)]
      exact ih htail hw.2
    | normal name =>
      rw [FileTree.walk] at hw
      split at hw
      · cases hw
      · rename_i target hnode
        have hlink := h.link _ _ hnode
        rw [FileTree.walk, hlink]
        refine hf _ _ _ ?_ hw hq
        have htarget := hs _ _ hlink
        cases target with
        | nil => exact htail
        | cons y ys => simp_all
      · rename_i n hn hnode
        cases n with
        | link target => exact absurd rfl (hn target)
        | dir =>
          rw [FileTree.walk, (h.dir _).1 hnode]
          exact ih htail hw
        | file content =>
          rw [eq_of_walk_file hnode hx' hw, hnode] at hq
          cases hq

theorem Narrows.resolve (h : Narrows s t) (hs : s.Parsed) {n : ℕ} (hx : .rootDir ∉ xs.tail)
    (hr : t.resolve n cur xs = some q) (hq : t.node q = some .dir) :
    s.resolve n cur xs = some q := by
  induction n generalizing cur xs q with
  | zero => exact h.walk hs (fun _ _ _ _ hf _ => by cases hf) hx hr hq
  | succ n ih => exact h.walk hs (fun _ _ _ hx hf hq => ih hx hf hq) hx hr hq

theorem Narrows.canonicalize (h : Narrows s t) (hs : s.Parsed) (hx : .rootDir ∉ xs.tail)
    (hr : t.canonicalize xs = some q) (hq : t.node q = some .dir) :
    s.canonicalize xs = some q := by
  unfold FileTree.canonicalize at hr ⊢
  split_ifs at hr ⊢ with hnil
  rw [← h.maxLinks, ← h.cwd]
  exact h.resolve hs hx hr hq

theorem narrows_setFile (h : Narrows s t) (content : List UInt8) (hw : t.CanWrite p) :
    Narrows s (t.setFile p content hw) := by
  refine ⟨fun q => ?_, fun q target hq => ?_, h.cwd, h.maxLinks⟩
  · simp only [setFile]
    split_ifs with heq
    · subst heq
      exact iff_of_false (by simp) fun hdir => hw.dir ((h.dir q).2 hdir)
    · exact h.dir q
  · simp only [setFile] at hq
    split_ifs at hq
    · cases hq
    · exact h.link q target hq

theorem settles_setFile (h : Settles s t) (content : List UInt8) (hw : t.CanWrite p) :
    Settles s (t.setFile p content hw) := by
  refine ⟨narrows_setFile h.toNarrows content hw, fun q target hq => ?_⟩
  simp only [setFile]
  split_ifs
  · simp
  · exact h.kept q target hq

theorem node_below {r : List String} (h : s.node p ≠ some .dir) (hr : r ≠ []) :
    s.node (p ++ r) = none := by
  by_contra hne
  exact h (node_of_append hne hr)

/-- Where a file is moved to, and where it was. -/
theorem node_relocate_file {source target : List String} {content : List UInt8}
    (hmove : s.CanMove source target) (hfile : s.node source = some (.file content))
    (htarget : s.node target ≠ some .dir) (q : List String) :
    (s.relocate source target hmove).node q = if q = target then some (.file content)
      else if q = source then none else s.node q := by
  simp only [relocate]
  by_cases ht : target <+: q
  · obtain ⟨r, rfl⟩ := ht
    rw [if_pos (List.prefix_append _ _), List.drop_left]
    by_cases hr : r = []
    · simp [hr, hfile]
    · have hsource : target ++ r ≠ source := by
        intro heq
        have hnone := node_below htarget hr
        rw [heq, hfile] at hnone
        cases hnone
      rw [if_neg (by simpa using hr), if_neg hsource, node_below htarget hr]
      exact node_below (by simp [hfile]) hr
  · have hne : q ≠ target := fun heq => ht (heq ▸ List.prefix_rfl)
    rw [if_neg ht, if_neg hne]
    by_cases hs : source <+: q
    · obtain ⟨r, rfl⟩ := hs
      rw [if_pos (List.prefix_append _ _)]
      by_cases hr : r = []
      · simp [hr]
      · rw [if_neg (by simpa using hr)]
        exact (node_below (by simp [hfile]) hr).symm
    · have hne' : q ≠ source := fun heq => hs (heq ▸ List.prefix_rfl)
      rw [if_neg hs, if_neg hne']

theorem narrows_relocate {source target : List String} {content : List UInt8} (h : Narrows s t)
    (hmove : t.CanMove source target) (hfile : t.node source = some (.file content))
    (htarget : t.node target ≠ some .dir) : Narrows s (t.relocate source target hmove) := by
  have hnode := node_relocate_file hmove hfile htarget
  refine ⟨fun q => ?_, fun q l hq => ?_, h.cwd, h.maxLinks⟩
  · rw [hnode, ← h.dir q]
    split_ifs with ht hs
    · simp [ht, htarget]
    · simp [hs, hfile]
    · exact Iff.rfl
  · rw [hnode] at hq
    split_ifs at hq
    · cases hq
    · exact h.link q l hq

theorem settles_relocate {source target : List String} {content : List UInt8} (h : Settles s t)
    (hmove : t.CanMove source target) (hfile : t.node source = some (.file content))
    (htarget : t.node target ≠ some .dir) (hlink : ∀ l, s.node source ≠ some (.link l)) :
    Settles s (t.relocate source target hmove) := by
  refine ⟨narrows_relocate h.toNarrows hmove hfile htarget, fun q l hq => ?_⟩
  rw [node_relocate_file hmove hfile htarget]
  split_ifs with ht hs
  · simp
  · exact absurd (hs ▸ hq) (hlink l)
  · exact h.kept q l hq

end FileTree
