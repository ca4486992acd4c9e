import BuilderPro.Lib.Runs
import BuilderPro.Orchd.Export
import BuilderPro.Orchd.Writes

/-!
# Reading rules and documents

`GetRuleSet` and `GetDoc` read a row's file afresh and compare it with the row's hash, and an export
takes its text.  They do not read a file over a mebibyte.  A row whose file has the text of its hash,
and not too much of it, reads back in all of them (`Orchd.readsBack_iff`).
-/

namespace BuilderPro

open Results

/-- The state half of `read_state`. -/
def Files.fileState (host : Host) (fs : Files) (p : FilePath) (storedHash : String) :
    RuleFileState :=
  match fs.readState p with
  | none => .missing
  | some content =>
    if host.sha256Hex content = storedHash then .ok else .externallyModified

structure ProjectExportEnvelope where
  bundleFormat : ℕ
  exportedAt : ℤ
  bundle : ProjectBundle
  deriving DecidableEq, Repr

namespace Orchd

structure RuleSetView where
  rule : RuleSet
  mdContent : Option String
  fileState : RuleFileState
  deriving DecidableEq, Repr

structure DocView where
  doc : Doc
  mdContent : Option String
  fileState : RuleFileState
  deriving DecidableEq, Repr

variable (host : Host) (o : Orchd)

def buildRulesetView (rule : RuleSet) : RuleSetView :=
  ⟨rule, o.files.readState rule.mdPath, o.files.fileState host rule.mdPath rule.mdHash⟩

def buildDocView (doc : Doc) : DocView :=
  ⟨doc, o.files.readState doc.mdPath, o.files.fileState host doc.mdPath doc.mdHash⟩

def getRuleSet (scope : RuleScope) (projectId : Option String) :
    Except OrchdPersistError RuleSetView :=
  o.buildRulesetView host <$> loadRulesetByScope o.db scope projectId

def getDoc (projectId name : String) : Except OrchdPersistError DocView :=
  match findDoc o.db projectId name with
  | some doc => .ok (o.buildDocView host doc)
  | none => .error .notFound

/-- `serialize_with_frame_cap`, of a project's envelope. -/
def serializeProject (toString : ProjectExportEnvelope → String) (value : ProjectExportEnvelope) :
    Except OrchdPersistError String :=
  let json := toString value
  if json.utf8ByteSize > exportCap then .error (.io "export exceeds the 16 MiB frame cap")
  else .ok json

def exportProject (toString : ProjectExportEnvelope → String) (projectId : String)
    (exportedAt : ℤ) : Except OrchdPersistError String := do
  let bundle ← o.buildProjectBundle projectId
  serializeProject toString ⟨bundleFormat, exportedAt, bundle⟩

end Orchd

/-! ### Rows with files -/

/-- A row whose file is markdown. -/
inductive MdRow
  | ruleset (id : String)
  | doc (id : String)
  deriving DecidableEq, Repr

namespace Store

variable (s : Store)

/-- The path and the hash a row has. -/
def entry : MdRow → Option (FilePath × String)
  | .ruleset id => (s.rulesets.lookup id).map fun r => (r.mdPath, r.mdHash)
  | .doc id => (s.docs.lookup id).map fun d => (d.mdPath, d.mdHash)

def pathOf (f : MdRow) : Option FilePath := (s.entry f).map Prod.fst

def projectOf : MdRow → Option String
  | .ruleset id => (s.rulesets.lookup id).bind RuleSet.projectId
  | .doc id => (s.docs.lookup id).map Doc.projectId

/-- What the schema asks of the rows: a ruleset for a project, and one for none; a doc for a project
and a name; and the projects are there. -/
structure FileKeys : Prop where
  ruleset : ∀ r ∈ s.rulesets.rows, ∀ q ∈ s.rulesets.rows, r.projectId = q.projectId → r = q
  scope : ∀ r ∈ s.rulesets.rows, r.scope = .global ↔ r.projectId = none
  doc : ∀ d ∈ s.docs.rows, ∀ e ∈ s.docs.rows, d.projectId = e.projectId → d.name = e.name → d = e
  rulesetProject : ∀ r ∈ s.rulesets.rows, ∀ p, r.projectId = some p → s.HasProject p
  docProject : ∀ d ∈ s.docs.rows, s.HasProject d.projectId

end Store

/-- A project's bundle has a row with a text. -/
def ProjectBundle.Has (b : ProjectBundle) (c : String) : MdRow → Prop
  | .ruleset id => ∃ r, r.id = id ∧ b.ruleset = some ⟨r, some c⟩
  | .doc id => ∃ d, d.id = id ∧ ⟨d, some c⟩ ∈ b.docs

def AllExportEnvelope.Has (e : AllExportEnvelope) (c : String) (f : MdRow) : Prop :=
  (∃ b ∈ e.projects, b.Has c f) ∨ ∃ r, f = .ruleset r.id ∧ e.globalRuleset = some ⟨r, some c⟩

namespace Orchd

/-- The reading verb of a row answers a text, which is the one accepted. -/
def Views (host : Host) (o : Orchd) (c : String) : MdRow → Prop
  | .ruleset id => ∃ r, o.db.rulesets.lookup id = some r ∧
      o.getRuleSet host r.scope r.projectId = .ok ⟨r, some c, .ok⟩
  | .doc id => ∃ d, o.db.docs.lookup id = some d ∧
      o.getDoc host d.projectId d.name = .ok ⟨d, some c, .ok⟩

/-- A row reads back a text, and what is exported has it. -/
structure ReadsBack (host : Host) (o : Orchd) (f : MdRow) (c : String) : Prop where
  view : o.Views host c f
  exportAll : ∀ serde now, ∃ e, e.Has c f ∧ o.exportAll serde now = serializeWithFrameCap serde e
  exportProject : ∀ p, o.db.projectOf f = some p → ∀ toString now, ∃ e, e.bundle.Has c f ∧
    o.exportProject toString p now = serializeProject toString e

end Orchd

/-! ### What a row reads -/

section Reads

variable {host : Host} {o : Orchd} {p : FilePath} {c : String} {hash : String} {f : MdRow}

theorem Files.readState_eq_some {fs : Files} :
    fs.readState p = some c ↔ fs p = .file c ∧ c.utf8ByteSize ≤ Files.maxMdReadBytes := by
  unfold Files.readState
  split
  · rename_i content h
    rw [h, OnDisk.file.injEq]
    split_ifs with hcap
    · simp only [false_iff, not_and, not_le]
      rintro rfl
      exact hcap
    · rw [Option.some.injEq]
      constructor
      · rintro rfl
        exact ⟨rfl, by omega⟩
      · exact fun h => h.1
  · rename_i h
    simp only [reduceCtorEq, false_iff, not_and]
    exact fun hf => absurd hf (h c)

theorem Files.fileState_eq_ok {fs : Files} (h : fs.readState p = some c) :
    fs.fileState host p hash = .ok ↔ host.sha256Hex c = hash := by
  rw [fileState, h]
  simp only
  split_ifs with heq <;> simp [heq]

theorem Store.FileKeys.loadRulesetByScope (h : o.db.FileKeys) {r : RuleSet}
    (hr : o.db.rulesets.lookup r.id = some r) :
    Orchd.loadRulesetByScope o.db r.scope r.projectId = .ok r := by
  have hmem := KeyedTable.mem_rows.2 hr
  unfold Orchd.loadRulesetByScope
  split
  · rename_i q hq
    have hq' := List.find?_some hq
    simp only [decide_eq_true_eq] at hq'
    rw [h.ruleset q (List.mem_of_find?_eq_some hq) r hmem hq'.2]
  · rename_i hnone
    have := List.find?_eq_none.1 hnone r hmem
    simp at this

theorem Store.FileKeys.findDoc (h : o.db.FileKeys) {d : Doc}
    (hd : o.db.docs.lookup d.id = some d) : Orchd.findDoc o.db d.projectId d.name = some d := by
  have hmem := KeyedTable.mem_rows.2 hd
  rcases hq : Orchd.findDoc o.db d.projectId d.name with _ | q
  · have := List.find?_eq_none.1 hq d hmem
    simp at this
  · obtain ⟨hlookup, hp, hn⟩ := Orchd.findDoc_eq_some hq
    rw [h.doc q (KeyedTable.mem_rows.2 hlookup) d hmem hp hn]

/-! ### What an export has -/

theorem Orchd.buildRulesetBundle_eq_ok (scope : RuleScope) (pid : Option String) :
    ∃ b, o.buildRulesetBundle scope pid = .ok b ∧ ∀ r,
      Orchd.loadRulesetByScope o.db scope pid = .ok r →
        b = some ⟨r, o.files.readState r.mdPath⟩ := by
  unfold Orchd.buildRulesetBundle
  rcases h : Orchd.loadRulesetByScope o.db scope pid with e | r
  · have herr : e = .notFound := by
      unfold Orchd.loadRulesetByScope at h
      split at h
      · simp at h
      · simpa using h.symm
    subst herr
    exact ⟨none, rfl, by simp⟩
  · refine ⟨_, rfl, fun q hq => ?_⟩
    rw [Except.ok.injEq] at hq
    rw [hq]

/-- A project that exists has a bundle, with the texts of its ruleset and its docs. -/
theorem Orchd.buildProjectBundle_eq_ok {pid : String} (h : o.db.HasProject pid) :
    ∃ b, o.buildProjectBundle pid = .ok b ∧
      b.docs = (o.db.listDocs pid).map (fun d => ⟨d, o.files.readState d.mdPath⟩) ∧
      ∀ r, Orchd.loadRulesetByScope o.db .project (some pid) = .ok r →
        b.ruleset = some ⟨r, o.files.readState r.mdPath⟩ := by
  obtain ⟨x, hx⟩ := Option.isSome_iff_exists.1 h
  obtain ⟨ruleset, hruleset, hr⟩ :=
    Orchd.buildRulesetBundle_eq_ok (o := o) .project (some pid)
  unfold Orchd.buildProjectBundle Store.loadProject Store.listGoals Store.exportProjectGraph
  rw [hx, hruleset]
  exact ⟨_, rfl, rfl, hr⟩

/-- The whole store has an envelope, with the bundles of all its projects. -/
theorem Orchd.exportEnvelope_eq_ok (now : ℤ) :
    ∃ e, o.exportEnvelope now = .ok e ∧
      (∀ pid b, o.db.HasProject pid → o.buildProjectBundle pid = .ok b → b ∈ e.projects) ∧
      ∀ r, Orchd.loadRulesetByScope o.db .global none = .ok r →
        e.globalRuleset = some ⟨r, o.files.readState r.mdPath⟩ := by
  have hbuild : ∀ x ∈ o.db.listProjects, ∃ b, o.buildProjectBundle x.id = .ok b := by
    intro x hx
    have hmem : x ∈ o.db.projects.rows := (List.perm_insertionSort _ _).mem_iff.1 hx
    have hproject : o.db.HasProject x.id := KeyedTable.exists_row.1 ⟨x, hmem, rfl⟩
    obtain ⟨b, hb, -⟩ := Orchd.buildProjectBundle_eq_ok hproject
    exact ⟨b, hb⟩
  obtain ⟨bs, hbs, hall⟩ := exists_mapM_eq_ok hbuild
  obtain ⟨g, hg, hgr⟩ := Orchd.buildRulesetBundle_eq_ok (o := o) .global none
  unfold Orchd.exportEnvelope
  rw [hbs, hg]
  refine ⟨_, rfl, fun pid b hp hb => ?_, hgr⟩
  obtain ⟨x, hx⟩ := Option.isSome_iff_exists.1 hp
  obtain ⟨hmem, rfl⟩ := KeyedTable.lookup_eq_some.1 hx
  exact hall x ((List.perm_insertionSort _ _).mem_iff.2 hmem) b hb

theorem Store.FileKeys.project_of (h : o.db.FileKeys) {r : RuleSet} {pid : String}
    (hr : o.db.rulesets.lookup r.id = some r) (hp : r.projectId = some pid) :
    Orchd.loadRulesetByScope o.db .project (some pid) = .ok r := by
  have hscope : r.scope = .project := by
    have hiff := h.scope r (KeyedTable.mem_rows.2 hr)
    rcases hs : r.scope with _ | _
    · rw [hiff.1 hs] at hp
      simp at hp
    · rfl
  rw [← hscope, ← hp]
  exact h.loadRulesetByScope hr

/-- What a row of a project reads, the project's bundle has. -/
theorem Orchd.buildProjectBundle_has (h : o.db.FileKeys) (he : o.db.entry f = some (p, hash))
    (hread : o.files.readState p = some c) {pid : String} (hf : o.db.projectOf f = some pid) :
    o.db.HasProject pid ∧ ∃ b, o.buildProjectBundle pid = .ok b ∧ b.Has c f := by
  rcases f with id | id
  · obtain ⟨r, hr, heq⟩ := Option.map_eq_some_iff.1 he
    obtain rfl := KeyedTable.key_eq hr
    obtain ⟨rfl, rfl⟩ := Prod.mk.inj heq
    rw [Store.projectOf, hr, Option.bind_some] at hf
    have hproject := h.rulesetProject r (KeyedTable.mem_rows.2 hr) pid hf
    obtain ⟨b, hb, -, hruleset⟩ := Orchd.buildProjectBundle_eq_ok hproject
    refine ⟨hproject, b, hb, r, rfl, ?_⟩
    rw [hruleset r (h.project_of hr hf), hread]
  · obtain ⟨d, hd, heq⟩ := Option.map_eq_some_iff.1 he
    obtain rfl := KeyedTable.key_eq hd
    obtain ⟨rfl, rfl⟩ := Prod.mk.inj heq
    rw [Store.projectOf, hd, Option.map_some, Option.some.injEq] at hf
    subst hf
    have hmem := KeyedTable.mem_rows.2 hd
    have hproject := h.docProject d hmem
    obtain ⟨b, hb, hdocs, -⟩ := Orchd.buildProjectBundle_eq_ok hproject
    have hlist : d ∈ o.db.listDocs d.projectId :=
      (List.perm_insertionSort _ _).mem_iff.2 (List.mem_filter.2 ⟨hmem, decide_eq_true rfl⟩)
    refine ⟨hproject, b, hb, d, rfl, ?_⟩
    rw [hdocs, List.mem_map]
    exact ⟨d, hlist, by rw [hread]⟩

theorem Orchd.getRuleSet_row (h : o.db.FileKeys) {r : RuleSet}
    (hr : o.db.rulesets.lookup r.id = some r) :
    o.getRuleSet host r.scope r.projectId = .ok (o.buildRulesetView host r) := by
  rw [Orchd.getRuleSet, h.loadRulesetByScope hr]
  rfl

theorem Orchd.getDoc_row (h : o.db.FileKeys) {d : Doc} (hd : o.db.docs.lookup d.id = some d) :
    o.getDoc host d.projectId d.name = .ok (o.buildDocView host d) := by
  rw [Orchd.getDoc, h.findDoc hd]

theorem Files.read_ok_iff {fs : Files} :
    fs.readState p = some c ∧ fs.fileState host p hash = .ok ↔
      fs.readState p = some c ∧ hash = host.sha256Hex c :=
  and_congr_right fun hread => (fileState_eq_ok hread).trans eq_comm

theorem Orchd.views_iff (h : o.db.FileKeys) : o.Views host c f ↔
    ∃ p, o.db.entry f = some (p, host.sha256Hex c) ∧ o.files.readState p = some c := by
  rcases f with id | id
  · constructor
    · rintro ⟨r, hr, hview⟩
      obtain rfl := KeyedTable.key_eq hr
      simp only [Orchd.getRuleSet_row h hr, Except.ok.injEq, Orchd.buildRulesetView,
        Orchd.RuleSetView.mk.injEq, true_and, Files.read_ok_iff] at hview
      exact ⟨r.mdPath, by rw [Store.entry, hr, Option.map_some, hview.2], hview.1⟩
    · rintro ⟨p, he, hread⟩
      obtain ⟨r, hr, heq⟩ := Option.map_eq_some_iff.1 he
      obtain rfl := KeyedTable.key_eq hr
      obtain ⟨rfl, hhash⟩ := Prod.mk.inj heq
      refine ⟨r, hr, ?_⟩
      simp only [Orchd.getRuleSet_row h hr, Except.ok.injEq, Orchd.buildRulesetView,
        Orchd.RuleSetView.mk.injEq, true_and, Files.read_ok_iff]
      exact ⟨hread, hhash⟩
  · constructor
    · rintro ⟨d, hd, hview⟩
      obtain rfl := KeyedTable.key_eq hd
      simp only [Orchd.getDoc_row h hd, Except.ok.injEq, Orchd.buildDocView,
        Orchd.DocView.mk.injEq, true_and, Files.read_ok_iff] at hview
      exact ⟨d.mdPath, by rw [Store.entry, hd, Option.map_some, hview.2], hview.1⟩
    · rintro ⟨p, he, hread⟩
      obtain ⟨d, hd, heq⟩ := Option.map_eq_some_iff.1 he
      obtain rfl := KeyedTable.key_eq hd
      obtain ⟨rfl, hhash⟩ := Prod.mk.inj heq
      refine ⟨d, hd, ?_⟩
      simp only [Orchd.getDoc_row h hd, Except.ok.injEq, Orchd.buildDocView,
        Orchd.DocView.mk.injEq, true_and, Files.read_ok_iff]
      exact ⟨hread, hhash⟩

/-- What a row reads, an export of the whole store has. -/
theorem Orchd.exportEnvelope_has (h : o.db.FileKeys) (he : o.db.entry f = some (p, hash))
    (hread : o.files.readState p = some c) (now : ℤ) :
    ∃ e, o.exportEnvelope now = .ok e ∧ e.Has c f := by
  obtain ⟨e, hok, hbundles, hglobal⟩ := Orchd.exportEnvelope_eq_ok (o := o) now
  refine ⟨e, hok, ?_⟩
  rcases hf : o.db.projectOf f with _ | pid
  · rcases f with id | id
    · obtain ⟨r, hr, heq⟩ := Option.map_eq_some_iff.1 he
      obtain rfl := KeyedTable.key_eq hr
      obtain ⟨rfl, rfl⟩ := Prod.mk.inj heq
      rw [Store.projectOf, hr, Option.bind_some] at hf
      have hload := h.loadRulesetByScope hr
      rw [(h.scope r (KeyedTable.mem_rows.2 hr)).2 hf, hf] at hload
      refine .inr ⟨r, rfl, ?_⟩
      rw [hglobal r hload, hread]
    · obtain ⟨d, hd, -⟩ := Option.map_eq_some_iff.1 he
      rw [Store.projectOf, hd] at hf
      simp at hf
  · obtain ⟨hproject, b, hb, hhas⟩ := Orchd.buildProjectBundle_has h he hread hf
    exact .inl ⟨b, hbundles pid b hproject hb, hhas⟩

/-- A row reads back a text exactly when the text is in its file, its hash is the row's, and it is
not over the cap. -/
theorem Orchd.readsBack_iff (h : o.db.FileKeys) : o.ReadsBack host f c ↔
    ∃ p, o.db.entry f = some (p, host.sha256Hex c) ∧ o.files p = .file c ∧
      c.utf8ByteSize ≤ Files.maxMdReadBytes := by
  simp only [← Files.readState_eq_some]
  rw [← Orchd.views_iff h]
  refine ⟨fun hread => hread.view, fun hview => ⟨hview, ?_, ?_⟩⟩
  · intro serde now
    obtain ⟨p, he, hread⟩ := (Orchd.views_iff h).1 hview
    obtain ⟨e, hok, hhas⟩ := Orchd.exportEnvelope_has h he hread now
    refine ⟨e, hhas, ?_⟩
    rw [Orchd.exportAll, hok]
    rfl
  · intro pid hpid toString now
    obtain ⟨p, he, hread⟩ := (Orchd.views_iff h).1 hview
    obtain ⟨-, b, hb, hhas⟩ := Orchd.buildProjectBundle_has h he hread hpid
    refine ⟨⟨bundleFormat, now, b⟩, hhas, ?_⟩
    rw [Orchd.exportProject, hb]
    rfl

end Reads

end BuilderPro
