import BuilderPro.Orchd.ImportFiles

/-!
# Imports that stay inside

`import_ruleset` and `import_doc` make a row's directory before they look where it is.  When every
file is ready as it is written, all that an import makes and writes lies under the daemon's
directory exactly where the first directory that each row lacks would (`inside_iff`).  Rows that are
repointed to default paths get different ones (`defaults_apart`).
-/

namespace BuilderPro

namespace FileImport

variable {host : Host} {root : List String} {tree : FileTree} {s t : FileImport} {a : FileImportAct}

def missingFor (s : FileImport) (mdContent : Option String) :
    Except OrchdPersistError FilePath → Option (List String)
  | .error _ => none
  | .ok path => mdContent.bind fun _ => path.parent.bind fun parent =>
    s.disk.firstMissing parent.components.reverse

/-- Where the first directory is made for a row, if it needs one. -/
def missing (host : Host) (s : FileImport) : FileImportAct → Option (List String)
  | .ruleset b => s.missingFor b.mdContent (resolveRulesetWritePath host b.rule)
  | .doc b => s.missingFor b.mdContent (resolveDocWritePath host b.doc)
  | _ => none

def MakesInside (host : Host) (root : List String) (s : FileImport) (a : FileImportAct) : Prop :=
  ∀ p ∈ s.missing host a, root <+: p

instance (s : FileImport) (a : FileImportAct) : Decidable (s.MakesInside host root a) :=
  inferInstanceAs (Decidable (∀ p ∈ s.missing host a, root <+: p))

/-- What has been made and written lies under the root. -/
def Inside (root : List String) (s : FileImport) : Prop :=
  (∀ p ∈ s.disk.made, root <+: p) ∧ ∀ p ∈ s.disk.written, root <+: p

/-- Directories are made for a row under the root if the first of them is. -/
theorem inside_creates (h : s.Inside root) {d : Disk} {names : List String}
    {new : List (List String)} {top q : List String} (hc : Disk.Creates s.disk d names new top q)
    (hdisk : t.disk = d) : t.Inside root ↔ root <+: top := by
  rw [Inside, hdisk, hc.made, hc.written, List.forall_mem_append]
  constructor
  · exact fun hin => hin.1.2 top hc.first
  · exact fun hpre => ⟨⟨h.1, fun p hp => hpre.trans (hc.below p hp)⟩, h.2⟩

theorem inside_pendingWrite (h : s.Inside root) (path : FilePath) (content : String) :
    (s.pendingWrite host path content).Inside root ↔
      ∀ p ∈ s.missingFor (some content) (.ok path), root <+: p := by
  rw [missingFor, Option.bind_some]
  unfold pendingWrite
  cases path.parent with
  | none => exact iff_of_true h (by simp)
  | some parent =>
    rw [Option.bind_some]
    rcases s.disk.createDirAll_cases parent.components.reverse with
      ⟨hmissing, hsame⟩ | ⟨d, new, top, q, hmissing, hcreate, hc⟩
    · rw [hmissing]
      refine iff_of_true ?_ (by simp)
      simp only [hsame]
      cases s.disk.isDir parent.components.reverse.reverse with
      | false => exact h
      | true =>
        dsimp only
        split
        · exact h
        · exact h
    · rw [hmissing]
      have htop (P : List String → Prop) : (∀ p ∈ some top, P p) ↔ P top := by simp
      rw [htop]
      simp only [hcreate]
      split
      · exact inside_creates h hc rfl
      · exact inside_creates h hc rfl

theorem inside_collect (h : s.Inside root) (mdContent : Option String)
    (path : Except OrchdPersistError FilePath) :
    (s.collect host mdContent path).Inside root
      ↔ ∀ p ∈ s.missingFor mdContent path, root <+: p := by
  unfold collect
  cases path with
  | error e => exact iff_of_true h (by simp [missingFor])
  | ok path =>
    cases mdContent with
    | none => exact iff_of_true h (by simp [missingFor])
    | some content => exact inside_pendingWrite h path content

/-- A step stays inside exactly if the directories it makes do. -/
theorem inside_step (hinv : s.Inv host root tree) (h : s.Inside root) (hready : s.Ready a)
    (hs : step host s a = some t) : t.Inside root ↔ s.MakesInside host root a := by
  have hinv' := inv_step hinv hready hs
  cases a with
  | ruleset b =>
    obtain ⟨-, hs⟩ := Option.ite_none_right_eq_some.1 hs
    cases hs
    exact inside_collect h _ _
  | doc b =>
    obtain ⟨-, hs⟩ := Option.ite_none_right_eq_some.1 hs
    cases hs
    exact inside_collect h _ _
  | refuse =>
    obtain ⟨-, hs⟩ := Option.ite_none_right_eq_some.1 hs
    cases hs
    exact iff_of_true h (by simp [MakesInside, missing])
  | commit =>
    obtain ⟨-, hs⟩ := Option.ite_none_right_eq_some.1 hs
    cases hs
    exact iff_of_true h (by simp [MakesInside, missing])
  | write =>
    have hphase : t.phase ≠ .rolledBack := by
      simp only [step] at hs
      split at hs
      · rename_i hphase _
        cases hs
        simp [hphase]
      · cases hs
    exact iff_of_true ⟨hinv'.made hphase, hinv'.written⟩ (by simp [MakesInside, missing])

/-! ### Default paths -/

/-- A row whose path is not kept, as it is not plainly under the daemon's directory. -/
def Repointed (host : Host) (mdPath : FilePath) : Prop :=
  (mdPath.absolute && mdPath.startsWith host.appSupport) = false

/-- Repointed rows that get one path are of one scope and project, or project and name. -/
structure DefaultsApart (host : Host) : Prop where
  rulesets : ∀ r r' p, Repointed host r.mdPath → Repointed host r'.mdPath →
    resolveRulesetWritePath host r = .ok p → resolveRulesetWritePath host r' = .ok p →
      r.scope = r'.scope ∧ (r.scope = .project → r.projectId = r'.projectId)
  docs : ∀ d d' p, Repointed host d.mdPath → Repointed host d'.mdPath →
    resolveDocWritePath host d = .ok p → resolveDocWritePath host d' = .ok p →
      d.projectId = d'.projectId ∧ d.name = d'.name
  both : ∀ r d p, Repointed host r.mdPath → Repointed host d.mdPath →
    resolveRulesetWritePath host r = .ok p → resolveDocWritePath host d ≠ .ok p

theorem of_repointed {mdPath p : FilePath} {what : String}
    {fallback : Except OrchdPersistError FilePath} (h : Repointed host mdPath)
    (hr : resolveWritePath host what mdPath fallback = .ok p) : fallback = .ok p := by
  unfold resolveWritePath at hr
  split_ifs at hr with hparent hstarts
  · rw [h] at hstarts
    cases hstarts
  · exact hr

theorem components_join_md (p : FilePath) {s : String} (hslash : '/' ∉ s.toList) :
    (p.join (s ++ ".md")).components = p.components ++ [s ++ ".md"] := by
  have hne : s ++ ".md" ≠ "" := fun h => by simpa using congrArg (fun s => s.toList.getLast?) h
  have hdot : s ++ ".md" ≠ "." := fun h => by simpa using congrArg (fun s => s.toList.getLast?) h
  rw [join_segment p (by simpa using hslash)]
  simp [hne, hdot]

theorem components_defaultRuleset {scope : RuleScope} {projectId : Option String} {p : FilePath}
    (h : defaultRulesetMdPath host scope projectId = .ok p) : ∃ name,
      p.components = host.appSupport.components ++ ["rules", name ++ ".md"]
        ∧ (scope = .global ∧ name = "global"
          ∨ scope = .project ∧ ∃ id, projectId = some id ∧ name = "project-" ++ id) := by
  have hrules : (host.appSupport.join "rules").components
      = host.appSupport.components ++ ["rules"] := by
    rw [join_segment _ (by decide)]
    rfl
  unfold defaultRulesetMdPath at h
  split at h
  · cases h
    refine ⟨"global", ?_, .inl ⟨rfl, rfl⟩⟩
    have hjoin := components_join_md (host.appSupport.join "rules") (s := "global") (by decide)
    rw [hrules, List.append_assoc] at hjoin
    exact hjoin
  · rename_i id
    obtain ⟨_, hid, hpath⟩ := Results.bind_eq_ok.1 h
    cases hpath
    obtain ⟨hslash, -⟩ := segment_of_validate hid
    refine ⟨"project-" ++ id, ?_, .inr ⟨rfl, id, rfl, rfl⟩⟩
    rw [components_join_md _ (by simpa using hslash), hrules, List.append_assoc]
    rfl
  · cases h

theorem components_defaultDoc {doc : Doc} {p : FilePath} (hrepointed : Repointed host doc.mdPath)
    (h : resolveDocWritePath host doc = .ok p) : doc.projectId ≠ "" ∧
      p.components = host.appSupport.components ++ ["rules", "docs"]
        ++ ([doc.projectId].filter fun c => c ≠ "" && c ≠ ".") ++ [doc.name ++ ".md"] := by
  obtain ⟨_, hid, h⟩ := Results.bind_eq_ok.1 (of_repointed hrepointed h)
  obtain ⟨_, hname, hpath⟩ := Results.bind_eq_ok.1 h
  cases hpath
  obtain ⟨hslash, -⟩ := segment_of_validate hid
  obtain ⟨hslash', -⟩ := segment_of_validate hname
  refine ⟨?_, ?_⟩
  · intro hnil
    rw [hnil] at hid
    cases hid
  · rw [components_join_md _ hslash', join_segment _ hslash, join_segment _ (by decide),
      join_segment _ (by decide)]
    simp

theorem md_inj {s s' : String} (h : s ++ ".md" = s' ++ ".md") : s = s' :=
  (String.append_left_inj ".md").1 h

theorem defaults_apart (host : Host) : DefaultsApart host where
  rulesets r r' p hr hr' hp hp' := by
    obtain ⟨name, hcomps, hname⟩ := components_defaultRuleset (of_repointed hr hp)
    obtain ⟨name', hcomps', hname'⟩ := components_defaultRuleset (of_repointed hr' hp')
    obtain rfl : name = name' := by
      rw [hcomps] at hcomps'
      exact md_inj (by simpa using hcomps')
    have hhead (id : String) : "global" ≠ "project-" ++ id := fun h => by
      simpa using congrArg (fun s => s.toList.head?) h
    rcases hname with ⟨hscope, rfl⟩ | ⟨hscope, id, hid, rfl⟩
    · rcases hname' with ⟨hscope', -⟩ | ⟨-, id', -, hname'⟩
      · exact ⟨hscope.trans hscope'.symm, fun h => by rw [hscope] at h; cases h⟩
      · exact absurd hname' (hhead id')
    · rcases hname' with ⟨-, hname'⟩ | ⟨hscope', id', hid', hname'⟩
      · exact absurd hname'.symm (hhead id)
      · obtain rfl := (String.append_right_inj "project-").1 hname'
        exact ⟨hscope.trans hscope'.symm, fun _ => hid.trans hid'.symm⟩
  docs d d' p hd hd' hp hp' := by
    obtain ⟨hne, hcomps⟩ := components_defaultDoc hd hp
    obtain ⟨hne', hcomps'⟩ := components_defaultDoc hd' hp'
    obtain ⟨hdirs, hfile⟩ := List.append_inj' (hcomps.symm.trans hcomps') rfl
    refine ⟨?_, md_inj (by simpa using hfile)⟩
    have hid := List.append_cancel_left hdirs
    -- the only id that is no name of its own is `.`
    by_cases hdot : d.projectId = "."
    · by_cases hdot' : d'.projectId = "."
      · rw [hdot, hdot']
      · simp [hdot, hne', hdot'] at hid
    · by_cases hdot' : d'.projectId = "."
      · simp [hdot', hne, hdot] at hid
      · simpa [hne, hdot, hne', hdot'] using hid
  both r d p hr hd hp hp' := by
    obtain ⟨name, hcomps, -⟩ := components_defaultRuleset (of_repointed hr hp)
    obtain ⟨-, hcomps'⟩ := components_defaultDoc hd hp'
    have hlen := congrArg List.length (hcomps.symm.trans hcomps')
    simp only [List.length_append, List.length_cons, List.length_nil] at hlen
    omega

/-- The daemon's directory with a link in the place of `rules`. -/
def linkedTree (target : List String) : FileTree :=
  (appTree.insert ["app", "kept"] .dir (by decide)).insert ["app", "rules"]
    (.link (absolutePath target)) (by decide)

theorem parsed_linkedTree (target : List String) : (linkedTree target).Parsed := by
  intro p l hp
  simp only [linkedTree, FileTree.insert] at hp
  split_ifs at hp
  · cases hp
    exact rootDir_not_mem_tail target
  · cases hp
  · exact absurd hp (no_link_appTree p l)

end FileImport

end BuilderPro
