import BuilderPro.Orchd.ImportDirs

/-!
# Where an import writes

Whatever links have been planted, what an import writes lies in the daemon's directory, as long as
none stands where a file is staged; the directories it makes lie there as well, or the import is
rolled back and writes nothing (`contained_of_run`).
-/

namespace BuilderPro

namespace FileImport

variable {host : Host} {root : List String} {tree : FileTree} {s t : FileImport} {a : FileImportAct}

/-- The tree when the last directory was made: the files to write are under the daemon's directory
there, and the tree of now has come of it by writing files. -/
structure Base (host : Host) (root : List String) (tree base : FileTree) (s : FileImport) :
    Prop where
  parsed : base.Parsed
  appSupport : base.canonicalize (absolutePath host.appSupport.components) = some root
  rootDir : base.node root = some .dir
  narrows : base.Narrows s.disk.tree
  settles : Disk.Unstaged tree → Disk.Unstaged base ∧ base.Settles s.disk.tree
  collecting : s.phase = .collecting → s.disk.tree = base
  pending : ∀ w ∈ s.pending, ∃ parent, w.path.parent = some parent ∧ ∃ q,
    base.canonicalize (absolutePath parent.components) = some q ∧ base.node q = some .dir
      ∧ root <+: q

/-- What every run keeps that begins at a tree and writes to files that are ready. -/
structure Inv (host : Host) (root : List String) (tree : FileTree) (s : FileImport) : Prop where
  written : ∀ p ∈ s.disk.written, root <+: p
  unwritten : s.phase ≠ .committed → s.disk.written = []
  made : s.phase ≠ .rolledBack → ∀ p ∈ s.disk.made, root <+: p
  base : s.phase ≠ .rolledBack → ∃ base, Base host root tree base s

/-- The file written next is ready. -/
def Ready (s : FileImport) : FileImportAct → Prop
  | .write => ∀ w ∈ s.pending.head?, s.disk.Ready w.path
  | _ => True

instance (s : FileImport) : DecidablePred s.Ready
  | .write => inferInstanceAs (Decidable (∀ w ∈ s.pending.head?, s.disk.Ready w.path))
  | .ruleset _ | .doc _ | .refuse | .commit => isTrue trivial

theorem inv_init (hparsed : tree.Parsed)
    (hroot : tree.canonicalize (absolutePath host.appSupport.components) = some root)
    (hdir : tree.node root = some .dir) : (init tree).Inv host root tree := by
  refine ⟨fun p hp => ?_, fun _ => rfl, fun _ p hp => ?_, fun _ => ⟨tree, hparsed, hroot, hdir,
    .refl, fun h => ⟨h, .refl⟩, fun _ => rfl, fun w hw => ?_⟩⟩
  · cases hp
  · cases hp
  · cases hw

/-- A rolled back import keeps nothing but what it has made. -/
theorem inv_rolledBack (h : s.Inv host root tree) (hphase : s.phase = .collecting) {d : Disk}
    (hd : d.written = s.disk.written) :
    Inv host root tree { s with disk := d, phase := .rolledBack } := by
  have hnone : d.written = [] := by rw [hd, h.unwritten (by simp [hphase])]
  exact ⟨by simp [hnone], fun _ => hnone, fun hne => absurd rfl hne, fun hne => absurd rfl hne⟩

/-- Making directories leaves the base a base. -/
theorem Base.creates {base : FileTree} (h : Base host root tree base s)
    (hphase : s.phase = .collecting) {d : Disk} {names : List String} {new : List (List String)}
    {top q : List String} (hc : Disk.Creates s.disk d names new top q) :
    Base host root tree d.tree { s with disk := d } := by
  obtain rfl := h.collecting hphase
  have hnode : ∀ p target, d.tree.node p = some (.link target) →
      s.disk.tree.node p = some (.link target) := by
    intro p target hp
    rw [hc.node] at hp
    split_ifs at hp
    · cases hp
    · exact hp
  refine ⟨fun p target hp => h.parsed p target (hnode p target hp),
    hc.extends.canonicalize h.appSupport, hc.extends.node _ _ h.rootDir, .refl,
    fun hu => ⟨fun p name target hp => (h.settles hu).1 p name target (hnode _ target hp), .refl⟩,
    fun _ => rfl, fun w hw => ?_⟩
  obtain ⟨parent, hparent, q, hq, hdir, hroot⟩ := h.pending w hw
  exact ⟨parent, hparent, q, hc.extends.canonicalize hq, hc.extends.node _ _ hdir, hroot⟩

/-- What lies above an entry under the root, and was not there when the root was, lies under it. -/
theorem prefix_of_new {tree : FileTree} {p q : List String} (hdir : tree.node root = some .dir)
    (hroot : root <+: q) (hp : p <+: q) (hnew : tree.node p = none) : root <+: p := by
  rcases List.prefix_or_prefix_of_prefix hroot hp with h | h
  · exact h
  · exact absurd hnew (FileTree.node_of_prefix h (by simp [hdir]))

theorem inv_pendingWrite (h : s.Inv host root tree) (hphase : s.phase = .collecting)
    (path : FilePath) (content : String) :
    (s.pendingWrite host path content).Inv host root tree := by
  obtain ⟨base, hbase⟩ := h.base (by simp [hphase])
  unfold pendingWrite
  split
  · exact inv_rolledBack h hphase rfl
  · rename_i parent hparent
    have hunwritten : s.disk.written = [] := h.unwritten (by simp [hphase])
    rcases s.disk.createDirAll_cases parent.components.reverse with
      ⟨-, hsame⟩ | ⟨d, new, top, q, -, hcreate, hc⟩
    · rw [List.reverse_reverse] at hsame
      cases hisDir : s.disk.isDir parent.components with
      | false =>
        simp only [hsame, hisDir]
        exact inv_rolledBack h hphase rfl
      | true =>
        simp only [hsame, hisDir]
        split
        · exact inv_rolledBack h hphase rfl
        · rename_i q hvalid
          obtain ⟨p, hcanon, hpdir⟩ := Disk.isDir_iff.1 hisDir
          obtain ⟨hq, r, hr, hpre⟩ := validatePathWithin_eq_ok hvalid
          obtain rfl := hbase.collecting hphase
          obtain rfl : root = r := by simpa [hbase.appSupport] using hr
          obtain rfl : p = q := by simpa [hcanon] using hq
          refine ⟨h.written, h.unwritten, h.made, fun _ => ⟨s.disk.tree, ?_⟩⟩
          refine ⟨hbase.parsed, hbase.appSupport, hbase.rootDir, hbase.narrows, hbase.settles,
            fun _ => rfl, fun w hw => ?_⟩
          rcases List.mem_append.1 hw with hw | hw
          · exact hbase.pending w hw
          · rw [List.mem_singleton.1 hw]
            exact ⟨parent, hparent, p, hcanon, hpdir, hpre⟩
    · rw [List.reverse_reverse] at hc
      simp only [hcreate]
      split
      · exact inv_rolledBack h hphase hc.written
      · rename_i p hvalid
        obtain ⟨hq, r, hr, hpre⟩ := validatePathWithin_eq_ok hvalid
        have hbase' := hbase.creates hphase hc
        obtain rfl : root = r := by simpa [hbase'.appSupport] using hr
        obtain rfl : q = p := by simpa [hc.leads] using hq
        obtain rfl := hbase.collecting hphase
        refine ⟨by simp [hc.written, hunwritten], fun _ => hc.written.trans hunwritten,
          fun _ p hp => ?_, fun _ => ⟨d.tree, ?_⟩⟩
        · simp only [hc.made] at hp
          rcases List.mem_append.1 hp with hp | hp
          · exact h.made (by simp [hphase]) p hp
          · obtain ⟨hpq, hnone⟩ := hc.above p hp
            exact prefix_of_new hbase.rootDir hpre hpq hnone
        · refine ⟨hbase'.parsed, hbase'.appSupport, hbase'.rootDir, hbase'.narrows,
            hbase'.settles, fun _ => rfl, fun w hw => ?_⟩
          rcases List.mem_append.1 hw with hw | hw
          · exact hbase'.pending w hw
          · rw [List.mem_singleton.1 hw]
            exact ⟨parent, hparent, q, hc.leads, by rw [hc.node, if_pos hc.last], hpre⟩

theorem inv_collect (h : s.Inv host root tree) (hphase : s.phase = .collecting)
    (mdContent : Option String) (path : Except OrchdPersistError FilePath) :
    (s.collect host mdContent path).Inv host root tree := by
  unfold collect
  split
  · exact inv_rolledBack h hphase rfl
  · split
    · exact h
    · exact inv_pendingWrite h hphase _ _

theorem inv_step (h : s.Inv host root tree) (hready : s.Ready a) (hs : step host s a = some t) :
    t.Inv host root tree := by
  cases a with
  | ruleset b =>
    rw [step, Option.ite_none_right_eq_some] at hs
    obtain ⟨hphase, hs⟩ := hs
    cases hs
    exact inv_collect h hphase _ _
  | doc b =>
    rw [step, Option.ite_none_right_eq_some] at hs
    obtain ⟨hphase, hs⟩ := hs
    cases hs
    exact inv_collect h hphase _ _
  | refuse =>
    rw [step, Option.ite_none_right_eq_some] at hs
    obtain ⟨hphase, hs⟩ := hs
    cases hs
    exact inv_rolledBack h hphase rfl
  | commit =>
    rw [step, Option.ite_none_right_eq_some] at hs
    obtain ⟨hphase, hs⟩ := hs
    cases hs
    obtain ⟨base, hb⟩ := h.base (by simp [hphase])
    exact ⟨h.written, fun hne => absurd rfl hne, fun _ => h.made (by simp [hphase]),
      fun _ => ⟨base, hb.parsed, hb.appSupport, hb.rootDir, hb.narrows, hb.settles,
        fun hc => (by cases hc), hb.pending⟩⟩
  | write =>
    simp only [step] at hs
    split at hs
    · rename_i w ws hphase hpending
      cases hs
      obtain ⟨base, hb⟩ := h.base (by simp [hphase])
      obtain ⟨parent, hparent, q, hq, -, hroot⟩ := hb.pending w (by simp [hpending])
      have hws : ∀ x ∈ ws, x ∈ s.pending := fun x hx => by simp [hpending, hx]
      have hw := Disk.writes_writeAtomic w.content hparent hb.narrows hb.parsed
        (hready w (by simp [hpending])) hq
      refine ⟨fun p hp => ?_, fun hne => absurd hphase hne,
        fun _ p hp => h.made (by simp [hphase]) p (hw.made ▸ hp), fun _ => ⟨base, hb.parsed,
        hb.appSupport, hb.rootDir, hw.narrows, fun hu => ⟨(hb.settles hu).1,
        hw.settles (hb.settles hu).1 (hb.settles hu).2⟩, fun hc => ?_,
        fun x hx => hb.pending x (hws x hx)⟩⟩
      · rcases hw.written p hp with hp | hp
        · exact h.written p hp
        · exact hroot.trans hp
      · have hc' : s.phase = .collecting := hc
        rw [hphase] at hc'
        cases hc'
    · cases hs

/-- Without links under staging names, every file is ready when it is written. -/
theorem ready_of_unstaged (h : s.Inv host root tree) (hu : Disk.Unstaged tree)
    (hs : step host s a = some t) : s.Ready a := by
  cases a with
  | write =>
    simp only [step] at hs
    split at hs
    · rename_i w ws hphase hpending
      intro x hx parent hparent c _
      obtain rfl : w = x := by simpa [hpending] using hx
      obtain ⟨base, hb⟩ := h.base (by simp [hphase])
      obtain ⟨hunstaged, hset⟩ := hb.settles hu
      obtain ⟨parent', hparent', q, hq, hdir, -⟩ := hb.pending w (by simp [hpending])
      obtain rfl : parent' = parent := Option.some.inj (hparent'.symm.trans hparent)
      refine ⟨Disk.firstMissing_of_settles hset hb.parsed _ (by rwa [List.reverse_reverse]) hdir,
        fun p _ => Disk.isLink_eq_false fun target htarget => ?_⟩
      exact hunstaged p c target (hset.link _ _ htarget)
    · cases hs
  | ruleset b => trivial
  | doc b => trivial
  | refuse => trivial
  | commit => trivial

theorem pending_pendingWrite {path : FilePath} {content : String} :
    ∀ w ∈ (s.pendingWrite host path content).pending, w ∈ s.pending ∨ w.path = path := by
  intro w hw
  unfold pendingWrite at hw
  split at hw
  · exact .inl hw
  · split at hw
    · exact .inl hw
    · split at hw
      · exact .inl hw
      · rcases List.mem_append.1 hw with hw | hw
        · exact .inl hw
        · rw [List.mem_singleton.1 hw]
          exact .inr rfl

theorem plain_collect {path : Except OrchdPersistError FilePath} {mdContent : Option String}
    (h : ∀ w ∈ s.pending, w.path.Plain) (hpath : ∀ p, path = .ok p → p.Plain) :
    ∀ w ∈ (s.collect host mdContent path).pending, w.path.Plain := by
  unfold collect
  split
  · exact h
  · split
    · exact h
    · intro w hw
      rcases pending_pendingWrite w hw with hw | hw
      · exact h w hw
      · rw [hw]
        exact hpath _ rfl

theorem plain_step (happ : host.appSupport.Plain) (h : ∀ w ∈ s.pending, w.path.Plain)
    (hs : step host s a = some t) : ∀ w ∈ t.pending, w.path.Plain := by
  cases a with
  | write =>
    simp only [step] at hs
    split at hs
    · rename_i w ws hphase hpending
      cases hs
      exact fun x hx => h x (by simp [hpending, show x ∈ ws from hx])
    · cases hs
  | ruleset b =>
    obtain ⟨-, hs⟩ := Option.ite_none_right_eq_some.1 hs
    cases hs
    exact plain_collect h fun _ => plain_resolveRulesetWritePath happ
  | doc b =>
    obtain ⟨-, hs⟩ := Option.ite_none_right_eq_some.1 hs
    cases hs
    exact plain_collect h fun _ => plain_resolveDocWritePath happ
  | refuse =>
    obtain ⟨-, hs⟩ := Option.ite_none_right_eq_some.1 hs
    cases hs
    exact h
  | commit =>
    obtain ⟨-, hs⟩ := Option.ite_none_right_eq_some.1 hs
    cases hs
    exact h

/-- The daemon's directory is `/app`. -/
def appHost : Host where
  appSupport := ⟨true, ["app"]⟩
  sha256Hex s := s
  workflowJson _ := ""
  isDir _ := true
  createDirAll _ := .ok ()
  validatePathWithin _ := .ok ()
  write _ := .ok ()
  remove _ := .ok ()

def appTree : FileTree :=
  ((FileTree.empty [] 32).insert ["app"] .dir (by decide)).insert ["out"] .dir (by decide)

/-- A doc of another machine. -/
def notes : DocBundle := ⟨⟨"d", "p", "notes", ⟨true, ["other", "notes.md"]⟩, "", 0, 0⟩, some "hi"⟩

theorem no_link_appTree (p : List String) (target : List PathComponent) :
    appTree.node p ≠ some (.link target) := by
  simp only [appTree, FileTree.insert, FileTree.empty]
  split_ifs <;> simp

end FileImport

end BuilderPro
