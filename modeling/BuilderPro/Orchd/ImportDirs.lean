import BuilderPro.Orchd.ImportDisk

/-!
# What an import does to the disk

`create_dir_all` makes nothing, or the directories that are missing on the way to the one it is
asked for, wherever the links on that way lead (`createDirAll_cases`).  A file whose directory is
there is written in it, unless a link stands where it is staged (`writes_writeAtomic`).
-/

namespace BuilderPro

theorem absolutePath_snoc (names : List String) (name : String) :
    absolutePath (names ++ [name]) = absolutePath names ++ [.normal name] := by
  simp [absolutePath]

theorem rootDir_not_mem_tail (names : List String) : .rootDir ∉ (absolutePath names).tail := by
  simp [absolutePath]

/-- What a path leads to, its last name lies in what the rest leads to. -/
theorem canonicalize_up {s : FileTree} {names : List String} {name : String} {q : List String}
    (h : s.canonicalize (absolutePath (names ++ [name])) = some q) :
    ∃ p, s.canonicalize (absolutePath names) = some p ∧ s.node p = some .dir
      ∧ s.node (p ++ [name]) ≠ none ∧ (s.isLink (p ++ [name]) = false → q = p ++ [name]) := by
  rw [absolutePath_snoc] at h
  obtain ⟨p, hp, hnode, hlink⟩ := FileTree.canonicalize_concat (by simp [absolutePath]) h
  exact ⟨p, hp, s.node_parent p name hnode, hnode, hlink⟩

namespace Disk

/-- Where `create_dir_all` makes its first directory, for a path by its names from the last on. -/
def firstMissing (d : Disk) : List String → Option (List String)
  | [] => none
  | name :: up =>
    match d.tree.canonicalize (absolutePath up.reverse) with
    | some p => if d.tree.CanInsert (p ++ [name]) then some (p ++ [name]) else none
    | none => d.firstMissing up

variable {d d' : Disk} {names up : List String} {name : String} {q top : List String}
  {new : List (List String)}

theorem firstMissing_of_some {p : List String}
    (hp : d.tree.canonicalize (absolutePath up.reverse) = some p) :
    d.firstMissing (name :: up) =
      if d.tree.CanInsert (p ++ [name]) then some (p ++ [name]) else none := by
  rw [firstMissing, hp]

theorem firstMissing_of_none (hp : d.tree.canonicalize (absolutePath up.reverse) = none) :
    d.firstMissing (name :: up) = d.firstMissing up := by
  rw [firstMissing, hp]

theorem mkdir_of_canInsert {p : List String} (hp : d.tree.canonicalize (absolutePath up) = some p)
    (h : d.tree.CanInsert (p ++ [name])) : d.mkdir up name = some ({ d with
      tree := d.tree.insert (p ++ [name]) .dir h
      made := d.made ++ [p ++ [name]] }, true) := by
  simp [mkdir, hp, h]

theorem mkdir_of_not_canInsert {p : List String}
    (hp : d.tree.canonicalize (absolutePath up) = some p) (h : ¬d.tree.CanInsert (p ++ [name])) :
    d.mkdir up name = some (d, false) := by
  simp [mkdir, hp, h]

theorem mkdir_of_none (hp : d.tree.canonicalize (absolutePath up) = none) :
    d.mkdir up name = none := by
  simp [mkdir, hp]

theorem isDir_iff : d.isDir names = true ↔
    ∃ p, d.tree.canonicalize (absolutePath names) = some p ∧ d.tree.node p = some .dir := by
  unfold isDir
  split
  · rename_i p hp
    simp [hp]
  · rename_i hnone
    simp [hnone]

/-- The new directories lie one in another, from the first down to the one the path names. -/
structure Creates (d d' : Disk) (names : List String) (new : List (List String))
    (top q : List String) : Prop where
  made : d'.made = d.made ++ new
  written : d'.written = d.written
  cwd : d'.tree.cwd = d.tree.cwd
  maxLinks : d'.tree.maxLinks = d.tree.maxLinks
  node : ∀ p, d'.tree.node p = if p ∈ new then some .dir else d.tree.node p
  leads : d'.tree.canonicalize (absolutePath names) = some q
  first : top ∈ new
  last : q ∈ new
  above : ∀ p ∈ new, p <+: q ∧ d.tree.node p = none
  below : ∀ p ∈ new, top <+: p

theorem Creates.extends (h : Creates d d' names new top q) : d.tree.Extends d'.tree := by
  refine ⟨fun p n hn => ?_, h.cwd, h.maxLinks⟩
  rw [h.node, if_neg]
  · exact hn
  · intro hp
    rw [(h.above p hp).2] at hn
    cases hn

/-- `mkdir` where there is nothing. -/
theorem creates_mkdir (hq : d.tree.canonicalize (absolutePath up) = some q)
    (h : d.tree.CanInsert (q ++ [name])) : Creates d { d with
      tree := d.tree.insert (q ++ [name]) .dir h
      made := d.made ++ [q ++ [name]] } (up ++ [name]) [q ++ [name]] (q ++ [name])
      (q ++ [name]) := by
  have hnode : (d.tree.insert (q ++ [name]) .dir h).node (q ++ [name]) = some .dir := by
    simp [FileTree.insert]
  refine ⟨rfl, rfl, rfl, rfl, fun p => by simp [FileTree.insert], ?_, List.mem_singleton_self _,
    List.mem_singleton_self _, fun p hp => ?_, fun p hp => ?_⟩
  · rw [absolutePath_snoc]
    exact FileTree.canonicalize_snoc (FileTree.isReal_of_dir hnode)
      ((FileTree.extends_insert h).canonicalize hq)
  · obtain rfl := List.mem_singleton.1 hp
    exact ⟨List.prefix_rfl, h.free⟩
  · obtain rfl := List.mem_singleton.1 hp
    exact List.prefix_rfl

/-- One directory more. -/
theorem Creates.mkdir (h : Creates d d' up new top q) (name : String) :
    ∃ d'', d'.mkdir up name = some (d'', true)
      ∧ Creates d d'' (up ++ [name]) (new ++ [q ++ [name]]) top (q ++ [name]) := by
  have hdir : d'.tree.node q = some .dir := by rw [h.node, if_pos h.last]
  have hnew : q ++ [name] ∉ new := by
    intro hmem
    have hle := (h.above _ hmem).1.length_le
    simp at hle
  have hold : d.tree.node (q ++ [name]) = none := by
    by_contra hne
    have hparent := d.tree.node_parent q name hne
    rw [(h.above q h.last).2] at hparent
    cases hparent
  have hcan : d'.tree.CanInsert (q ++ [name]) := by
    refine ⟨by simp, by rwa [List.dropLast_concat], ?_⟩
    rw [h.node, if_neg hnew, hold]
  refine ⟨_, mkdir_of_canInsert h.leads hcan, ?_⟩
  have hc := creates_mkdir h.leads hcan
  refine ⟨?_, hc.written.trans h.written, hc.cwd.trans h.cwd, hc.maxLinks.trans h.maxLinks,
    fun p => ?_, hc.leads, List.mem_append_left _ h.first, by simp, fun p hp => ?_, fun p hp => ?_⟩
  · rw [hc.made, h.made, List.append_assoc]
  · rw [hc.node, h.node]
    by_cases hp : p = q ++ [name]
    · simp [hp]
    · simp [hp]
  · rcases List.mem_append.1 hp with hp | hp
    · obtain ⟨hpre, hnone⟩ := h.above p hp
      exact ⟨hpre.trans (List.prefix_append _ _), hnone⟩
    · obtain rfl := List.mem_singleton.1 hp
      exact ⟨List.prefix_rfl, hold⟩
  · rcases List.mem_append.1 hp with hp | hp
    · exact h.below p hp
    · rw [List.mem_singleton.1 hp]
      exact (h.below q h.last).trans (List.prefix_append _ _)

/-- `create_dir_all` makes nothing, or it makes the directory, from the first that is missing on. -/
theorem createDirAll_cases (d : Disk) (rev : List String) :
    d.firstMissing rev = none ∧ d.createDirAll rev = (d, d.isDir rev.reverse) ∨
      ∃ d' new top q, d.firstMissing rev = some top ∧ d.createDirAll rev = (d', true)
        ∧ Creates d d' rev.reverse new top q := by
  induction rev with
  | nil =>
    refine .inl ⟨rfl, Prod.ext rfl ?_⟩
    have hroot : d.tree.canonicalize (absolutePath []) = some [] :=
      FileTree.canonicalize_absolutePath FileTree.isReal_root
    exact (isDir_iff.2 ⟨[], hroot, d.tree.node_root⟩).symm
  | cons name up ih =>
    rw [List.reverse_cons]
    rcases hup : d.tree.canonicalize (absolutePath up.reverse) with _ | p
    · have hnone : d.isDir (up.reverse ++ [name]) = false := by
        rw [Bool.eq_false_iff, ne_eq, isDir_iff]
        rintro ⟨q, hq, -⟩
        obtain ⟨p, hp, -⟩ := canonicalize_up hq
        rw [hup] at hp
        cases hp
      rw [firstMissing_of_none hup]
      rcases ih with ⟨hmissing, hsame⟩ | ⟨d', new, top, q, hmissing, hcreate, hc⟩
      · have hfalse : d.isDir up.reverse = false := by
          simp [isDir, hup]
        refine .inl ⟨hmissing, ?_⟩
        simp only [createDirAll, mkdir_of_none hup, hsame, hfalse, hnone]
      · obtain ⟨d'', hmkdir, hc'⟩ := hc.mkdir name
        refine .inr ⟨d'', _, top, _, hmissing, ?_, hc'⟩
        simp only [createDirAll, mkdir_of_none hup, hcreate, hmkdir]
    · rw [firstMissing_of_some hup]
      by_cases hcan : d.tree.CanInsert (p ++ [name])
      · rw [if_pos hcan]
        refine .inr ⟨_, _, _, _, rfl, ?_, creates_mkdir hup hcan⟩
        simp only [createDirAll, mkdir_of_canInsert hup hcan]
      · rw [if_neg hcan]
        refine .inl ⟨rfl, ?_⟩
        simp only [createDirAll, mkdir_of_not_canInsert hup hcan]

theorem createDirAll_of_none {rev : List String} (h : d.firstMissing rev = none) :
    d.createDirAll rev = (d, d.isDir rev.reverse) := by
  rcases d.createDirAll_cases rev with ⟨-, hsame⟩ | ⟨_, _, top, _, hmissing, -⟩
  · exact hsame
  · rw [h] at hmissing
    cases hmissing

/-- Where the path led to a directory before files took the place of others, nothing is missing. -/
theorem firstMissing_of_settles {base : FileTree} (h : base.Settles d.tree) (hp : base.Parsed)
    (rev : List String) (hq : base.canonicalize (absolutePath rev.reverse) = some q)
    (hdir : base.node q = some .dir) : d.firstMissing rev = none := by
  induction rev generalizing q with
  | nil => rfl
  | cons name up ih =>
    rw [List.reverse_cons] at hq
    obtain ⟨p, hp', hpdir, hne, hlink⟩ := canonicalize_up hq
    rcases hup : d.tree.canonicalize (absolutePath up.reverse) with _ | p'
    · rw [firstMissing_of_none hup]
      exact ih hp' hpdir
    · rw [firstMissing_of_some hup, if_neg]
      intro hcan
      have hdir' : d.tree.node p' = some .dir := by simpa using hcan.parent
      have hsame := h.canonicalize hp (rootDir_not_mem_tail _) hup hdir'
      obtain rfl : p = p' := by simpa [hp'] using hsame
      -- what the base has there the tree has as well, unless it is a file
      rcases hnode : base.node (p ++ [name]) with _ | n
      · exact hne hnode
      · cases n with
        | dir => simpa [hcan.free] using (h.dir _).2 hnode
        | link target => exact h.kept _ _ hnode hcan.free
        | file content =>
          have hqp := hlink (by simp [FileTree.isLink, hnode])
          rw [hqp, hnode] at hdir
          cases hdir

/-! ### The files -/

/-- No link stands where a file is staged. -/
def Unstaged (s : FileTree) : Prop :=
  ∀ p name target, s.node (p ++ [name ++ ".tmp"]) ≠ some (.link target)

/-- The directory of a file to write is there, and no link stands where the file is staged. -/
def Ready (d : Disk) (path : FilePath) : Prop :=
  ∀ parent ∈ path.parent, ∀ c ∈ path.components.getLast?,
    d.firstMissing parent.components.reverse = none
      ∧ ∀ q ∈ d.tree.canonicalize (absolutePath parent.components),
        d.tree.isLink (q ++ [c ++ ".tmp"]) = false

instance (d : Disk) (path : FilePath) : Decidable (d.Ready path) :=
  inferInstanceAs (Decidable (∀ parent ∈ path.parent, ∀ c ∈ path.components.getLast?,
    d.firstMissing parent.components.reverse = none
      ∧ ∀ q ∈ d.tree.canonicalize (absolutePath parent.components),
        d.tree.isLink (q ++ [c ++ ".tmp"]) = false))

theorem isLink_eq_false {s : FileTree} {p : List String}
    (h : ∀ target, s.node p ≠ some (.link target)) : s.isLink p = false := by
  unfold FileTree.isLink
  split
  · rename_i target htarget
    exact absurd htarget (h target)
  · rfl

theorem place_eq {s : FileTree} (hq : s.canonicalize (absolutePath up) = some q)
    (hlink : s.isLink (q ++ [name]) = false) {p : List String}
    (h : s.place s.maxLinks [] (absolutePath (up ++ [name])) = some p) : p = q ++ [name] := by
  have hfrom : s.resolve s.maxLinks [] (absolutePath up) = some q := by
    obtain ⟨follow, hfollow⟩ := FileTree.exists_resolve_eq s s.maxLinks
    rw [FileTree.canonicalize, if_neg (by simp [absolutePath]), hfollow, absolutePath,
      FileTree.walk] at hq
    rw [hfollow, absolutePath, FileTree.walk]
    exact hq
  obtain ⟨follow, hfollow⟩ : ∃ follow, s.place s.maxLinks = s.placeBy s.maxLinks follow := by
    cases s.maxLinks <;> exact ⟨_, rfl⟩
  rw [hfollow] at h
  simp only [FileTree.placeBy, absolutePath_snoc, List.getLast?_append, List.getLast?_singleton,
    Option.some_or, List.dropLast_concat, hfrom, Option.bind_some] at h
  unfold FileTree.leaf at h
  split at h
  · rename_i target hnode
    simp [FileTree.isLink, hnode] at hlink
  · exact (Option.some.inj h).symm
  · rw [Option.ite_none_right_eq_some] at h
    exact (Option.some.inj h.2).symm

/-- A file is written where no link stands. -/
theorem write_eq {content : String} (hq : d.tree.canonicalize (absolutePath up) = some q)
    (hlink : d.tree.isLink (q ++ [name]) = false)
    (h : d.write (up ++ [name]) content = some d') :
    ∃ hw : d.tree.CanWrite (q ++ [name]), d' = { d with
      tree := d.tree.setFile (q ++ [name]) content.toUTF8.data.toList hw
      written := d.written ++ [q ++ [name]] } := by
  obtain ⟨p, hp, h⟩ := Option.bind_eq_some_iff.1 h
  obtain rfl := place_eq hq hlink hp
  split_ifs at h with hw
  exact ⟨hw, (Option.some.inj h).symm⟩

/-- What renaming a file does. -/
theorem fsRename_file {s t : FileTree} {source target : List String} {content : List UInt8}
    (hfile : s.node source = some (.file content)) (h : fsRename s source target = .ok t) :
    s.node target.dropLast = some .dir ∧ (t = s ∨ ∃ hm : s.CanMove source target,
      s.node target ≠ some .dir ∧ t = s.relocate source target hm) := by
  unfold fsRename at h
  split_ifs at h with hnone hparent heq hm
  · cases h
    exact ⟨not_not.1 hparent, .inl rfl⟩
  · obtain ⟨_, hcheck, ht⟩ := Results.bind_eq_ok.1 h
    refine ⟨not_not.1 hparent, .inr ⟨hm, fun hdir => ?_, ?_⟩⟩
    · simp [checkReplace, hfile, hdir] at hcheck
    · cases ht
      rfl

/-- Files written under a directory, in the place of other files and of links. -/
structure Writes (base : FileTree) (q : List String) (d d' : Disk) : Prop where
  narrows : base.Narrows d'.tree
  settles : Unstaged base → base.Settles d.tree → base.Settles d'.tree
  made : d'.made = d.made
  written : ∀ p ∈ d'.written, p ∈ d.written ∨ q <+: p

theorem mem_written (name : String) :
    ∀ p ∈ d.written ++ [q ++ [name]], p ∈ d.written ∨ q <+: p := by
  intro p hp
  rcases List.mem_append.1 hp with hp | hp
  · exact .inl hp
  · rw [List.mem_singleton.1 hp]
    exact .inr (List.prefix_append _ _)

theorem writes_rename {base : FileTree} {a b : String} {content : List UInt8}
    (h : base.Narrows d.tree) (hp : base.Parsed) (hq : base.canonicalize (absolutePath up) = some q)
    (hfile : d.tree.node (q ++ [a ++ ".tmp"]) = some (.file content))
    (hr : d.rename (up ++ [a ++ ".tmp"]) (up ++ [b]) = some d') : Writes base q d d' := by
  unfold rename at hr
  simp only [List.getLast?_append, List.getLast?_singleton, Option.some_or,
    List.dropLast_concat] at hr
  obtain ⟨p, hcanon, hr⟩ := Option.bind_eq_some_iff.1 hr
  rw [hcanon, Option.bind_some] at hr
  -- the directory is the one the files are in
  have hpq : d.tree.node p = some .dir → p = q := by
    intro hdir
    have hbase := h.canonicalize hp (rootDir_not_mem_tail _) hcanon hdir
    simpa [hq] using hbase.symm
  split at hr
  · rename_i t ht
    cases hr
    have hdir : d.tree.node p = some .dir := by
      have hparent : d.tree.node (p ++ [b]).dropLast = some .dir := by
        by_contra hne
        simp only [fsRename, hne, ne_eq, not_false_eq_true, if_true] at ht
        split_ifs at ht
      simpa using hparent
    obtain rfl := hpq hdir
    obtain ⟨-, rfl | ⟨hm, htarget, rfl⟩⟩ := fsRename_file hfile ht
    · exact ⟨h, fun _ hset => hset, rfl, mem_written b⟩
    · exact ⟨FileTree.narrows_relocate h hm hfile htarget, fun hunstaged hset =>
        FileTree.settles_relocate hset hm hfile htarget (hunstaged _ a), rfl, mem_written b⟩
  · cases hr

theorem tmpPathFor_components {path : FilePath} {up : List String} {c : String}
    (h : path.components = up ++ [c]) : path.tmpPathFor.components = up ++ [c ++ ".tmp"] := by
  simp [FilePath.tmpPathFor, h]

theorem writes_stage {base : FileTree} {path : FilePath} {c content : String}
    (hpath : path.components = up ++ [c]) (h : base.Narrows d.tree) (hp : base.Parsed)
    (hplain : d.tree.isLink (q ++ [c ++ ".tmp"]) = false)
    (hq : base.canonicalize (absolutePath up) = some q)
    (hcanon : d.tree.canonicalize (absolutePath up) = some q) :
    Writes base q d (d.stage path content) := by
  unfold stage
  rw [tmpPathFor_components hpath, hpath]
  split
  · exact ⟨h, fun _ hset => hset, rfl, fun p hp => .inl hp⟩
  · rename_i d₁ hwrite
    obtain ⟨hw, rfl⟩ := write_eq hcanon hplain hwrite
    have hnarrows := FileTree.narrows_setFile h content.toUTF8.data.toList hw
    have hfile : (d.tree.setFile (q ++ [c ++ ".tmp"]) content.toUTF8.data.toList hw).node
        (q ++ [c ++ ".tmp"]) = some (.file content.toUTF8.data.toList) := by
      simp [FileTree.setFile]
    cases hr : rename _ _ _ with
    | none =>
      exact ⟨hnarrows, fun _ hset => FileTree.settles_setFile hset _ hw, rfl, mem_written _⟩
    | some d₂ =>
      have hrename := writes_rename hnarrows hp hq hfile hr
      refine ⟨hrename.narrows, fun hunstaged hset => hrename.settles hunstaged
        (FileTree.settles_setFile hset _ hw), hrename.made, fun p hp => ?_⟩
      rcases hrename.written p hp with hp | hp
      · exact mem_written _ p hp
      · exact .inr hp

/-- A file whose directory was there before the writes. -/
theorem writes_writeAtomic {base : FileTree} {path parent : FilePath} (content : String)
    (hparent : path.parent = some parent) (h : base.Narrows d.tree) (hp : base.Parsed)
    (hready : d.Ready path) (hq : base.canonicalize (absolutePath parent.components) = some q) :
    Writes base q d (d.writeAtomic path content) := by
  have hne : path.components ≠ [] := by
    unfold FilePath.parent at hparent
    split_ifs at hparent with hne
    exact hne
  have hpath : path.components = parent.components ++ [path.components.getLast hne] := by
    unfold FilePath.parent at hparent
    rw [if_neg hne] at hparent
    cases hparent
    exact (List.dropLast_append_getLast hne).symm
  obtain ⟨hmissing, hplain⟩ := hready parent hparent _ (List.getLast?_eq_some_getLast hne)
  unfold writeAtomic
  rw [hparent]
  simp only [createDirAll_of_none hmissing, List.reverse_reverse]
  cases hisDir : d.isDir parent.components with
  | false => exact ⟨h, fun _ hset => hset, rfl, fun p hp => .inl hp⟩
  | true =>
    obtain ⟨p, hcanon, hpdir⟩ := isDir_iff.1 hisDir
    have hbase := h.canonicalize hp (rootDir_not_mem_tail _) hcanon hpdir
    obtain rfl : q = p := by simpa [hq] using hbase
    exact writes_stage hpath h hp (hplain q hcanon) hq hcanon

end Disk

end BuilderPro
