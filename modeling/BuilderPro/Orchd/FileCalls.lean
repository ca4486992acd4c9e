import BuilderPro.Orchd.FileReads

/-!
# Calls that write rules and documents

The writing verbs look at no file's size, and they stage a write beside its file, where another
row's file may be.  A call that is accepted leaves its row with the text it was given, and the other
rows as they are (`FileCall.run_accepts`).
-/

namespace BuilderPro

open Results

/-- The calls that write a file or take it as it is. -/
inductive FileCall
  | upsertRuleset (scope : RuleScope) (projectId : Option String) (mdContent : String)
    (mdPath : Option FilePath) (policy : Option PolicyRules) (now : ℤ)
  | upsertDoc (projectId name mdContent id : String) (now : ℤ)
  | acknowledgeRuleFile (id : String) (now : ℤ)
  | acknowledgeDocFile (id : String) (now : ℤ)

namespace FileCall

/-- What a call does, and the row it answers with. -/
def run (host : Host) (o : Orchd) : FileCall → Except OrchdPersistError (Orchd × MdRow)
  | .upsertRuleset scope projectId mdContent mdPath policy now =>
    (fun r => (r.1, .ruleset r.2.id)) <$>
      o.upsertRuleset host scope projectId (some mdContent) mdPath policy now
  | .upsertDoc projectId name mdContent id now =>
    (fun r => (r.1, .doc r.2.id)) <$> o.upsertDoc host projectId name mdContent id now
  | .acknowledgeRuleFile id now =>
    (fun r => (r.1, .ruleset r.2.id)) <$> o.acknowledgeRuleFile host id now
  | .acknowledgeDocFile id now => (fun r => (r.1, .doc r.2.id)) <$> o.acknowledgeDocFile host id now

/-- The text in the file of a row. -/
def textOf (o : Orchd) (f : MdRow) : Option String :=
  (o.db.pathOf f).bind fun p =>
    match o.files p with
    | .file content => some content
    | _ => none

/-- The text a call is asked to accept. -/
def content (o : Orchd) : FileCall → Option String
  | .upsertRuleset _ _ mdContent _ _ _ => some mdContent
  | .upsertDoc _ _ mdContent _ _ => some mdContent
  | .acknowledgeRuleFile id _ => textOf o (.ruleset id)
  | .acknowledgeDocFile id _ => textOf o (.doc id)

/-- The row whose file a call writes, and the path. -/
def writesTo (o : Orchd) : FileCall → Option (MdRow × FilePath)
  | .upsertRuleset scope projectId _ mdPath _ _ =>
    (Orchd.loadRulesetByScope o.db scope projectId).toOption.map fun r =>
      (.ruleset r.id, mdPath.getD r.mdPath)
  | .upsertDoc projectId name _ id _ =>
    match Orchd.findDoc o.db projectId name with
    | some d => some (.doc d.id, d.mdPath)
    | none =>
      (Orchd.loadRulesetByScope o.db .project (some projectId)).toOption.bind fun r =>
        (Orchd.projectDocMdPath r.mdPath projectId name).map fun p => (.doc id, p)
  | .acknowledgeRuleFile _ _ => none
  | .acknowledgeDocFile _ _ => none

/-- What a successful call does: a row comes to be at a path with a text and its hash, and nothing
else changes but that the path the text was staged at is free. -/
structure Accepts (call : FileCall) (host : Host) (o o' : Orchd) (f : MdRow) (p : FilePath)
    (c : String) : Prop where
  keys : o'.db.FileKeys
  entry : ∀ g, o'.db.entry g = if g = f then some (p, host.sha256Hex c) else o.db.entry g
  file : o'.files p = .file c
  target : ∀ w, call.writesTo o = some w → w = (f, p)
  staged : ∀ q ≠ p, (call.writesTo o).isSome → q = p.tmpPathFor → o'.files q = .missing
  rest : ∀ q ≠ p, ((call.writesTo o).isSome → q ≠ p.tmpPathFor) → o'.files q = o.files q

end FileCall

/-! ### What a call writes -/

section Writes

variable {host : Host} {o o' : Orchd} {p : FilePath} {c : String}

theorem Files.hash_writeAtomic {fs : Files} {r : Files × String}
    (h : fs.writeAtomic host p c = .ok r) : r.2 = host.sha256Hex c := by
  simp only [Files.writeAtomic, bind_eq_ok, pure_eq_ok] at h
  obtain ⟨-, -, rfl⟩ := h
  rfl

theorem Files.writeAtomic_apply {fs : Files} {r : Files × String}
    (h : fs.writeAtomic host p c = .ok r) (q : FilePath) :
    r.1 q = if q = p then .file c else if q = p.tmpPathFor then .missing else fs q := by
  simp only [Files.writeAtomic, bind_eq_ok, pure_eq_ok] at h
  obtain ⟨-, -, rfl⟩ := h
  simp only [Files.put, if_true]
  split_ifs <;> rfl

theorem Files.readToString_eq_ok {fs : Files} (h : fs.readToString p = .ok c) :
    fs p = .file c := by
  unfold Files.readToString at h
  split at h
  · rename_i content hfile
    rw [hfile, Except.ok.inj h]
  · simp at h
  · simp at h

/-- An acknowledged row has the hash of its file's text. -/
theorem Orchd.acknowledge_eq_ok {ρ : Type} [ProjectChild ρ] {id : String} {path : ρ → FilePath}
    {setHash : String → ρ → ρ} {r : Orchd × ρ}
    (h : o.acknowledge host id path setHash = .ok r)
    (hid : ∀ hash x, ProjectChild.id (setHash hash x) = ProjectChild.id x) : ∃ row c,
      (ProjectChild.table o.db).lookup id = some row ∧ o.files (path row) = .file c ∧
      r = (⟨o.db.replaceRow (setHash (host.sha256Hex c) row), o.files⟩,
        setHash (host.sha256Hex c) row) := by
  simp only [acknowledge, bind_eq_ok, pure_eq_ok] at h
  obtain ⟨row, hrow, c, hc, w, hw, rfl⟩ := h
  have hlookup := (Store.loadActive_eq_ok.1 hrow).1
  obtain ⟨x, hx, hx', rfl⟩ := Store.updateRow_eq_ok hw (hid _)
  rw [hid, hx, hlookup, Option.some.injEq] at hx'
  subst hx'
  exact ⟨row, c, hlookup, Files.readToString_eq_ok hc, rfl⟩

theorem Store.entry_replaceRuleset {s : Store} {r r' : RuleSet}
    (h : s.rulesets.lookup r'.id = some r) (f : MdRow) :
    (s.replaceRow r').entry f =
      if f = .ruleset r'.id then some (r'.mdPath, r'.mdHash) else s.entry f := by
  rcases f with id | id
  · simp only [entry, MdRow.ruleset.injEq]
    change ((s.rulesets.replace r').lookup id).map _ = _
    rw [KeyedTable.lookup_replace h]
    split_ifs <;> rfl
  · rw [if_neg MdRow.noConfusion]
    rfl

theorem Store.entry_replaceDoc {s : Store} {d d' : Doc} (h : s.docs.lookup d'.id = some d)
    (f : MdRow) :
    (s.replaceRow d').entry f =
      if f = .doc d'.id then some (d'.mdPath, d'.mdHash) else s.entry f := by
  rcases f with id | id
  · rw [if_neg MdRow.noConfusion]
    rfl
  · simp only [entry, MdRow.doc.injEq]
    change ((s.docs.replace d').lookup id).map _ = _
    rw [KeyedTable.lookup_replace h]
    split_ifs <;> rfl

theorem Store.entry_insertDoc {s : Store} {d : Doc} {u : KeyedTable Doc.id}
    (h : s.docs.insert d = some u) (f : MdRow) :
    (ProjectChild.setTable s u : Store).entry f =
      if f = .doc d.id then some (d.mdPath, d.mdHash) else s.entry f := by
  rcases f with id | id
  · rw [if_neg MdRow.noConfusion]
    rfl
  · simp only [entry, MdRow.doc.injEq]
    change (u.lookup id).map _ = _
    rw [KeyedTable.lookup_insert h]
    split_ifs <;> rfl

theorem Store.FileKeys.replaceRuleset {s : Store} (h : s.FileKeys) {r r' : RuleSet}
    (hr : s.rulesets.lookup r'.id = some r) (hscope : r'.scope = r.scope)
    (hp : r'.projectId = r.projectId) : (s.replaceRow r').FileKeys := by
  have hmem := (KeyedTable.lookup_eq_some.1 hr).1
  refine ⟨KeyedTable.inj_replace h.ruleset hr hp, ?_, h.doc, ?_, h.docProject⟩
  · refine KeyedTable.forall_replace h.scope ?_
    rw [hscope, hp]
    exact h.scope r hmem
  · refine KeyedTable.forall_replace h.rulesetProject ?_
    rw [hp]
    exact h.rulesetProject r hmem

theorem Store.FileKeys.replaceDoc {s : Store} (h : s.FileKeys) {d d' : Doc}
    (hd : s.docs.lookup d'.id = some d) (hp : d'.projectId = d.projectId)
    (hn : d'.name = d.name) : (s.replaceRow d').FileKeys := by
  have hinj : ∀ x ∈ s.docs.rows, ∀ y ∈ s.docs.rows,
      (x.projectId, x.name) = (y.projectId, y.name) → x = y := by
    intro x hx y hy hxy
    obtain ⟨hxp, hxn⟩ := Prod.mk.inj hxy
    exact h.doc x hx y hy hxp hxn
  refine ⟨h.ruleset, h.scope, fun x hx y hy hxp hxn => ?_, h.rulesetProject, ?_⟩
  · exact KeyedTable.inj_replace hinj hd (Prod.ext hp hn) x hx y hy (Prod.ext hxp hxn)
  · refine KeyedTable.forall_replace h.docProject ?_
    rw [hp]
    exact h.docProject d (KeyedTable.lookup_eq_some.1 hd).1

theorem Store.FileKeys.insertDoc {s : Store} (h : s.FileKeys) {d : Doc} {u : KeyedTable Doc.id}
    (hu : s.docs.insert d = some u) (hp : s.HasProject d.projectId)
    (hnone : Orchd.findDoc s d.projectId d.name = none) :
    (ProjectChild.setTable s u : Store).FileKeys := by
  have hrows := (KeyedTable.insert_eq_some.1 hu).2
  have hmem : ∀ x, x ∈ u.rows ↔ x ∈ s.docs.rows ∨ x = d := by simp [hrows]
  have hone : ∀ x ∈ s.docs.rows, x.projectId = d.projectId → x.name ≠ d.name := by
    intro x hx hxp hxn
    have := List.find?_eq_none.1 hnone x hx
    simp [hxp, hxn] at this
  refine ⟨h.ruleset, h.scope, ?_, h.rulesetProject, ?_⟩
  · intro x hx y hy hxy hnames
    rcases (hmem x).1 hx with hx | rfl <;> rcases (hmem y).1 hy with hy | rfl
    · exact h.doc x hx y hy hxy hnames
    · exact absurd hnames (hone x hx hxy)
    · exact absurd hnames.symm (hone y hy hxy.symm)
    · rfl
  · intro x hx
    rcases (hmem x).1 hx with hx | rfl
    · exact h.docProject x hx
    · exact hp

namespace FileCall

variable {f : MdRow}

/-- A call that writes a text to a row's file, and the row. -/
theorem accepts_of_writes {call : FileCall} {r : Files × String} (hkeys : o'.db.FileKeys)
    (hw : call.writesTo o = some (f, p)) (hr : o.files.writeAtomic host p c = .ok r)
    (hfiles : o'.files = r.1)
    (hentry : ∀ g, o'.db.entry g = if g = f then some (p, host.sha256Hex c) else o.db.entry g) :
    call.Accepts host o o' f p c := by
  have hfile : ∀ q, o'.files q =
      if q = p then .file c else if q = p.tmpPathFor then .missing else o.files q := by
    intro q
    rw [hfiles]
    exact Files.writeAtomic_apply hr q
  refine ⟨hkeys, hentry, ?_, ?_, ?_, ?_⟩
  · rw [hfile, if_pos rfl]
  · intro w hw'
    rw [hw, Option.some.injEq] at hw'
    exact hw'.symm
  · intro q hq _ hstaged
    rw [hfile, if_neg hq, if_pos hstaged]
  · intro q hq hfree
    rw [hfile, if_neg hq, if_neg (hfree (by rw [hw]; rfl))]

/-- A call that takes the file of a row as it is. -/
theorem accepts_of_reads {call : FileCall} (hkeys : o'.db.FileKeys) (hw : call.writesTo o = none)
    (hfile : o.files p = .file c) (hfiles : o'.files = o.files)
    (hentry : ∀ g, o'.db.entry g = if g = f then some (p, host.sha256Hex c) else o.db.entry g) :
    call.Accepts host o o' f p c := by
  refine ⟨hkeys, hentry, ?_, ?_, ?_, ?_⟩
  · rw [hfiles, hfile]
  · intro w hw'
    rw [hw] at hw'
    simp at hw'
  · intro q _ hsome
    rw [hw] at hsome
    simp at hsome
  · intro q _ _
    rw [hfiles]

theorem upsertRuleset_accepts {scope : RuleScope} {pid : Option String} {path : Option FilePath}
    {policy : Option PolicyRules} {now : ℤ} (hkeys : o.db.FileKeys)
    (h : (upsertRuleset scope pid c path policy now).run host o = .ok (o', f)) :
    ∃ p, (upsertRuleset scope pid c path policy now).Accepts host o o' f p c := by
  simp only [run, map_eq_ok, Orchd.upsertRuleset, bind_eq_ok, pure_eq_ok, Option.elim_some,
    ioError, mapError_eq_ok, Prod.mk.injEq] at h
  obtain ⟨r, ⟨-, -, pol, -, -, -, row, hrow, w, hw, rfl⟩, rfl, rfl⟩ := h
  obtain ⟨hlookup, -, -⟩ := Orchd.loadRulesetByScope_eq_ok hrow
  refine ⟨path.getD row.mdPath, accepts_of_writes ?_ ?_ hw rfl ?_⟩
  · exact hkeys.replaceRuleset hlookup rfl rfl
  · rw [writesTo, hrow]
    rfl
  · intro g
    rw [← Files.hash_writeAtomic hw]
    refine Store.entry_replaceRuleset (r := row) ?_ g
    exact hlookup

theorem upsertDoc_accepts {pid name id : String} {now : ℤ} (hkeys : o.db.FileKeys)
    (h : (upsertDoc pid name c id now).run host o = .ok (o', f)) :
    ∃ p, (upsertDoc pid name c id now).Accepts host o o' f p c := by
  simp only [run, map_eq_ok, Orchd.upsertDoc, bind_eq_ok, Prod.mk.injEq] at h
  obtain ⟨r, ⟨-, -, u, hactive, h⟩, rfl, rfl⟩ := h
  split at h
  · rename_i doc hdoc
    simp only [bind_eq_ok, pure_eq_ok, ioError, mapError_eq_ok] at h
    obtain ⟨w, hw, rfl⟩ := h
    obtain ⟨hlookup, -, -⟩ := Orchd.findDoc_eq_some hdoc
    refine ⟨doc.mdPath, accepts_of_writes ?_ ?_ hw rfl ?_⟩
    · exact hkeys.replaceDoc hlookup rfl rfl
    · rw [writesTo, hdoc]
    · intro g
      rw [← Files.hash_writeAtomic hw]
      refine Store.entry_replaceDoc (d := doc) ?_ g
      exact hlookup
  · rename_i hnone
    simp only [bind_eq_ok] at h
    obtain ⟨ruleset, hruleset, h⟩ := h
    split at h
    · simp at h
    · rename_i path hpath
      simp only [bind_eq_ok, pure_eq_ok, ioError, mapError_eq_ok] at h
      obtain ⟨w, hw, t, ht, rfl⟩ := h
      obtain ⟨docs, hdocs, rfl⟩ := Store.insertRow_eq_ok ht
      refine ⟨path, accepts_of_writes ?_ ?_ hw rfl ?_⟩
      · exact hkeys.insertDoc hdocs (Store.hasProject_of_active hactive) hnone
      · rw [writesTo, hnone, hruleset]
        simp only [Except.toOption, Option.bind_some, hpath, Option.map_some]
      · intro g
        rw [← Files.hash_writeAtomic hw]
        refine Store.entry_insertDoc ?_ g
        exact hdocs

theorem textOf_of_file (h : o.db.pathOf f = some p) (hfile : o.files p = .file c) :
    textOf o f = some c := by
  rw [textOf, h, Option.bind_some, hfile]

theorem acknowledgeRuleFile_accepts {id : String} {now : ℤ} (hkeys : o.db.FileKeys)
    (h : (acknowledgeRuleFile id now).run host o = .ok (o', f)) :
    ∃ p c, textOf o (.ruleset id) = some c ∧
      (acknowledgeRuleFile id now).Accepts host o o' f p c := by
  simp only [run, map_eq_ok, Prod.mk.injEq, Orchd.acknowledgeRuleFile] at h
  obtain ⟨r, hr, rfl, rfl⟩ := h
  obtain ⟨row, c, hlookup, hfile, rfl⟩ := Orchd.acknowledge_eq_ok hr fun _ _ => rfl
  change o.db.rulesets.lookup id = some row at hlookup
  have hrow : o.db.rulesets.lookup row.id = some row := by
    rw [KeyedTable.key_eq hlookup]
    exact hlookup
  refine ⟨row.mdPath, c, textOf_of_file ?_ hfile, accepts_of_reads ?_ rfl hfile rfl ?_⟩
  · rw [Store.pathOf, Store.entry, hlookup]
    rfl
  · refine hkeys.replaceRuleset (r := row) ?_ rfl rfl
    exact hrow
  · intro g
    refine Store.entry_replaceRuleset (r := row) ?_ g
    exact hrow

theorem acknowledgeDocFile_accepts {id : String} {now : ℤ} (hkeys : o.db.FileKeys)
    (h : (acknowledgeDocFile id now).run host o = .ok (o', f)) :
    ∃ p c, textOf o (.doc id) = some c ∧
      (acknowledgeDocFile id now).Accepts host o o' f p c := by
  simp only [run, map_eq_ok, Prod.mk.injEq, Orchd.acknowledgeDocFile] at h
  obtain ⟨r, hr, rfl, rfl⟩ := h
  obtain ⟨row, c, hlookup, hfile, rfl⟩ := Orchd.acknowledge_eq_ok hr fun _ _ => rfl
  change o.db.docs.lookup id = some row at hlookup
  have hrow : o.db.docs.lookup row.id = some row := by
    rw [KeyedTable.key_eq hlookup]
    exact hlookup
  refine ⟨row.mdPath, c, textOf_of_file ?_ hfile, accepts_of_reads ?_ rfl hfile rfl ?_⟩
  · rw [Store.pathOf, Store.entry, hlookup]
    rfl
  · refine hkeys.replaceDoc (d := row) ?_ rfl rfl
    exact hrow
  · intro g
    refine Store.entry_replaceDoc (d := row) ?_ g
    exact hrow

/-- A successful call has a text to accept, and accepts it. -/
theorem run_accepts {call : FileCall} (hkeys : o.db.FileKeys)
    (h : call.run host o = .ok (o', f)) :
    ∃ p c, call.content o = some c ∧ call.Accepts host o o' f p c := by
  cases call with
  | upsertRuleset scope pid content path policy now =>
    obtain ⟨p, hp⟩ := upsertRuleset_accepts hkeys h
    exact ⟨p, content, rfl, hp⟩
  | upsertDoc pid name content id now =>
    obtain ⟨p, hp⟩ := upsertDoc_accepts hkeys h
    exact ⟨p, content, rfl, hp⟩
  | acknowledgeRuleFile id now => exact acknowledgeRuleFile_accepts hkeys h
  | acknowledgeDocFile id now => exact acknowledgeDocFile_accepts hkeys h

end FileCall

end Writes

end BuilderPro
