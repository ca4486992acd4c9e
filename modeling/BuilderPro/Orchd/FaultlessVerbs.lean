import BuilderPro.Orchd.FailedWrites

/-!
# Verbs when nothing fails

With no fault, and a host that writes and removes what it is asked to, the verbs do what they do
(`FileVerb.call_nothing`).
-/

namespace BuilderPro

namespace FileVerb

open Attempt

variable {φ : Faults} {host : Host} {o : Orchd}

section Nothing

variable {α : Type} {p : FilePath} {content : String} {o' : Orchd}

theorem sql_none {u : Unit} : Faults.sql none o = (.ok u, o') ↔ o = o' := by
  simp [Faults.sql]

theorem io_none {u : Unit} : Faults.io none o = (.ok u, o') ↔ o = o' := by
  simp [Faults.io]

theorem query_none {x : Store → Except OrchdPersistError α} {a : α} :
    Faults.query none x o = (.ok a, o') ↔ x o.db = .ok a ∧ o = o' := by
  simp [Faults.query, bind_eq_ok, sql_none]

theorem execute_none {f : Store → Except OrchdPersistError Store} {u : Unit} :
    Faults.execute none f o = (.ok u, o') ↔ ∃ s, f o.db = .ok s ∧ ⟨s, o.files⟩ = o' := by
  simp [Faults.execute, bind_eq_ok, query_none]

theorem ensureOptionalProjectActive_nothing {pid : Option String} {u : Unit} :
    Faults.nothing.ensureOptionalProjectActive pid o = (.ok u, o') ↔
      o.db.ensureOptionalProjectActive pid = .ok u ∧ o = o' := by
  rcases pid with _ | p
  · simp [Faults.ensureOptionalProjectActive, Store.ensureOptionalProjectActive]
  · simp [Faults.ensureOptionalProjectActive, Store.ensureOptionalProjectActive, query_none]

theorem writeAtomic_nothing (hwrite : ∀ p, host.write p = .ok ()) {hash : String} :
    Faults.nothing.writeAtomic host p content o = (.ok hash, o') ↔
      o.files.writeAtomic host p content = .ok (o'.files, hash) ∧ o.db = o'.db := by
  have hrenamed : ((o.files.put p.tmpPathFor (.file content)).put p.tmpPathFor .missing).put p
      (o.files.put p.tmpPathFor (.file content) p.tmpPathFor) = o.files.written p content := by
    funext q
    simp only [Files.put, Files.written, if_true]
    split_ifs <;> rfl
  rw [Faults.writeAtomic_done (fun _ => rfl) rfl rfl, Files.writeAtomic, hwrite]
  obtain ⟨db, files⟩ := o'
  simp only [Results.bind_eq_ok, Results.pure_eq_ok, hrenamed, Prod.mk.injEq, Except.ok.injEq,
    Orchd.mk.injEq]
  constructor
  · rintro ⟨rfl, rfl, rfl⟩
    exact ⟨⟨(), trivial, rfl, rfl⟩, rfl⟩
  · rintro ⟨⟨-, -, rfl, rfl⟩, rfl⟩
    exact ⟨rfl, rfl, rfl⟩

theorem removeIfExists_nothing (hremove : ∀ p, host.remove p = .ok ()) {u : Unit} :
    Faults.nothing.removeIfExists p o = (.ok u, o') ↔
      o.files.removeIfExists host p = .ok o'.files ∧ o.db = o'.db := by
  obtain ⟨db', files'⟩ := o'
  rw [Faults.removeIfExists, Files.removeIfExists, hremove]
  rcases h : o.files p with _ | c | e
  · simp only [Prod.mk.injEq, Except.ok.injEq, true_and]
    constructor
    · rintro rfl
      exact ⟨rfl, rfl⟩
    · rintro ⟨rfl, rfl⟩
      rfl
  all_goals
    simp only [bind_eq_ok, Faults.nothing_removeFile, io_none, change_eq_ok, Results.bind_eq_ok,
      Results.pure_eq_ok]
    constructor
    · rintro ⟨-, t, rfl, h⟩
      obtain ⟨rfl, rfl⟩ := Orchd.mk.inj h
      exact ⟨⟨(), trivial, rfl⟩, rfl⟩
    · rintro ⟨⟨-, -, rfl⟩, rfl⟩
      exact ⟨(), o, rfl, rfl⟩

theorem openChild_nothing {ρ : Type} [ProjectChild ρ] {id : String} {x : ρ} :
    Faults.nothing.openChild ρ id o = (.ok x, o') ↔ o.db.loadActive id = .ok x ∧ o = o' := by
  simp only [Faults.openChild, bind_eq_ok, Faults.nothing_transaction, Faults.nothing_lookup,
    sql_none, query_none, ensureOptionalProjectActive_nothing, pure_eq_ok, Store.loadActive_eq_ok,
    Store.loadRow_eq_ok]
  constructor
  · rintro ⟨-, t, rfl, y, t, ⟨hy, rfl⟩, u, t, ⟨hactive, rfl⟩, rfl, rfl⟩
    exact ⟨⟨hy, hactive⟩, rfl⟩
  · rintro ⟨⟨hx, hactive⟩, rfl⟩
    exact ⟨(), _, rfl, x, _, ⟨hx, rfl⟩, (), _, ⟨hactive, rfl⟩, rfl, rfl⟩

theorem openRuleset_nothing {scope : RuleScope} {pid : Option String} {path : Option FilePath}
    {policy : Option PolicyRules} {r : RuleSet × Option PolicyRules} :
    Faults.nothing.openRuleset host scope pid path policy o = (.ok r, o') ↔
      (Orchd.validateMdPath host path = .ok () ∧ policy.mapM validatePolicy = .ok r.2 ∧
        o.db.ensureOptionalProjectActive pid = .ok () ∧
        Orchd.loadRulesetByScope o.db scope pid = .ok r.1) ∧ o = o' := by
  simp only [Faults.openRuleset, bind_eq_ok, ask_eq_ok, Faults.nothing_transaction,
    Faults.nothing_lookup, sql_none, query_none, ensureOptionalProjectActive_nothing, pure_eq_ok]
  constructor
  · rintro ⟨u, t, ⟨hpath, rfl⟩, pol, t, ⟨hpolicy, rfl⟩, -, t, rfl, v, t, ⟨hactive, rfl⟩, row, t,
      ⟨hrow, rfl⟩, rfl, rfl⟩
    exact ⟨⟨hpath, hpolicy, hactive, hrow⟩, rfl⟩
  · rintro ⟨⟨hpath, hpolicy, hactive, hrow⟩, rfl⟩
    exact ⟨(), _, ⟨hpath, rfl⟩, _, _, ⟨hpolicy, rfl⟩, (), _, rfl, (), _, ⟨hactive, rfl⟩, _, _,
      ⟨hrow, rfl⟩, rfl, rfl⟩

theorem discard_eq_ok {x : Verb α} {u : Unit} :
    (x >>= fun _ => (pure () : Verb Unit)) o = (.ok u, o') ↔ ∃ a, x o = (.ok a, o') := by
  simp only [bind_eq_ok, pure_eq_ok]
  constructor
  · rintro ⟨a, t, h, -, rfl⟩
    exact ⟨a, h⟩
  · rintro ⟨a, h⟩
    exact ⟨a, _, h, trivial, rfl⟩

theorem writeContent_nothing (hwrite : ∀ p, host.write p = .ok ()) {given hash : Option String} :
    Faults.nothing.writeContent host p given o = (.ok hash, o') ↔
      (given.elim (.ok (o.files, none)) fun content =>
        (fun r => (r.1, some r.2)) <$> o.files.writeAtomic host p content) =
          .ok (o'.files, hash) ∧ o.db = o'.db := by
  rcases given with _ | content
  · obtain ⟨db, files⟩ := o
    obtain ⟨db', files'⟩ := o'
    simp only [Faults.writeContent, pure_eq_ok, Option.elim_none, Except.ok.injEq, Prod.mk.injEq,
      Orchd.mk.injEq]
    tauto
  · simp only [Faults.writeContent, Option.elim_some, Results.map_eq_ok, Prod.mk.injEq]
    constructor
    · intro h
      obtain ⟨a, t, ha, hpure⟩ := bind_eq_ok.1 h
      obtain ⟨rfl, rfl⟩ := pure_eq_ok.1 hpure
      obtain ⟨hw, hdb⟩ := (writeAtomic_nothing hwrite).1 ha
      exact ⟨⟨_, hw, rfl, rfl⟩, hdb⟩
    · rintro ⟨⟨⟨fs, a⟩, hw, rfl, rfl⟩, hdb⟩
      exact bind_eq_ok.2 ⟨a, o', (writeAtomic_nothing hwrite).2 ⟨hw, hdb⟩, pure_eq_ok.2 ⟨rfl, rfl⟩⟩

/-- The hash of a row is the one of the content it is given, or the one it has. -/
theorem given_eq_ok {given : Option String} {w : String → Except String (Files × String)}
    {fs gs : Files} {old hash : String} :
    (given.elim (pure (fs, old)) fun c => (w c).mapError OrchdPersistError.io) =
        .ok (gs, hash) ↔
      ∃ new, (given.elim (.ok (fs, none)) fun c => (fun r => (r.1, some r.2)) <$> w c) =
        .ok (gs, new) ∧ new.getD old = hash := by
  rcases given with _ | c
  · simp only [Option.elim_none, Results.pure_eq_ok, Except.ok.injEq, Prod.mk.injEq]
    constructor
    · rintro ⟨rfl, rfl⟩
      exact ⟨none, ⟨rfl, rfl⟩, rfl⟩
    · rintro ⟨-, ⟨rfl, rfl⟩, rfl⟩
      exact ⟨rfl, rfl⟩
  · simp only [Option.elim_some, Results.mapError_eq_ok, Results.map_eq_ok, Prod.mk.injEq]
    constructor
    · intro h
      exact ⟨some hash, ⟨_, h, rfl, rfl⟩, rfl⟩
    · rintro ⟨-, ⟨r, h, rfl, rfl⟩, rfl⟩
      exact h

theorem upsertRuleset_nothing (hwrite : ∀ p, host.write p = .ok ()) {scope : RuleScope}
    {pid given : Option String} {path : Option FilePath} {policy : Option PolicyRules} {now : ℤ} :
    (∃ r, Faults.nothing.upsertRuleset host scope pid given path policy now o = (.ok r, o')) ↔
      ((·.1) <$> o.upsertRuleset host scope pid given path policy now) = .ok o' := by
  simp only [Faults.upsertRuleset, Orchd.upsertRuleset, bind_eq_ok, openRuleset_nothing,
    writeContent_nothing hwrite, Faults.nothing_statement, execute_none, Faults.nothing_commit,
    sql_none, Results.bind_eq_ok, Results.pure_eq_ok, ioError, Results.map_eq_ok,
    Faults.nothing_reload, query_none, Faults.nothing_decode, io_none, pure_eq_ok]
  constructor
  · rintro ⟨r, ⟨row, pol⟩, t, ⟨⟨hpath, hpolicy, hactive, hrow⟩, rfl⟩, new, t, ⟨hw, hdb⟩, -, -,
      ⟨s, hs, rfl⟩, -, -, ⟨-, rfl⟩, -, -, rfl, -, -, rfl, -, rfl⟩
    obtain rfl := Except.ok.inj hs
    refine ⟨_, ⟨(), hpath, pol, hpolicy, (), hactive, row, hrow, (t.files, new.getD row.mdHash),
      given_eq_ok.2 ⟨new, hw, rfl⟩, rfl⟩, ?_⟩
    rw [hdb]
  · rintro ⟨-, ⟨u, hpath, pol, hpolicy, v, hactive, row, hrow, ⟨fs, hash⟩, hgiven, rfl⟩, rfl⟩
    obtain ⟨new, hw, rfl⟩ := given_eq_ok.1 hgiven
    have hstore : ∃ (t : Store) (r : RuleSet),
        Faults.storeRuleset row (path.getD row.mdPath) new pol now o.db = .ok t ∧
          t.loadRow row.id = .ok r :=
      Faults.loadRow_storeRuleset (Orchd.loadRulesetByScope_eq_ok hrow).1
    obtain ⟨t, r, ht, hload⟩ := hstore
    obtain rfl := Except.ok.inj ht
    exact ⟨r, (row, pol), o, ⟨⟨hpath, hpolicy, hactive, hrow⟩, rfl⟩, new, ⟨o.db, fs⟩, ⟨hw, rfl⟩,
      (), _, ⟨_, rfl, rfl⟩, r, _, ⟨hload, rfl⟩, (), _, rfl, (), _, rfl, rfl, rfl⟩

theorem openDoc_nothing {pid name : String} {target : Faults.DocTarget} :
    Faults.nothing.openDoc pid name o = (.ok target, o') ↔
      (validateDocName name = .ok () ∧ o.db.ensureProjectActive pid = .ok () ∧
        match Orchd.findDoc o.db pid name with
        | some doc => target = .save doc
        | none => ∃ ruleset path,
          Orchd.loadRulesetByScope o.db .project (some pid) = .ok ruleset ∧
            Orchd.projectDocMdPath ruleset.mdPath pid name = some path ∧ target = .create path) ∧
      o = o' := by
  simp only [Faults.openDoc, bind_eq_ok, ask_eq_ok, Faults.nothing_transaction,
    Faults.nothing_lookup, Faults.nothing_guard, sql_none, query_none]
  constructor
  · rintro ⟨u, t, ⟨hname, rfl⟩, -, t, rfl, v, t, ⟨hactive, rfl⟩, existing, t, ⟨hfind, rfl⟩, h⟩
    rw [Except.ok.inj hfind]
    rcases existing with _ | doc
    · simp only [bind_eq_ok, Faults.nothing_ruleset, query_none, ask_eq_ok] at h
      obtain ⟨ruleset, t, ⟨hruleset, rfl⟩, hpath, rfl⟩ := h
      split at hpath
      · rename_i path hsome
        exact ⟨⟨hname, hactive, ruleset, path, hruleset, hsome, (Except.ok.inj hpath).symm⟩, rfl⟩
      · simp at hpath
    · obtain ⟨rfl, rfl⟩ := pure_eq_ok.1 h
      exact ⟨⟨hname, hactive, rfl⟩, rfl⟩
  · rintro ⟨⟨hname, hactive, h⟩, rfl⟩
    refine ⟨(), _, ⟨hname, rfl⟩, (), _, rfl, (), _, ⟨hactive, rfl⟩, _, _, ⟨rfl, rfl⟩, ?_⟩
    rcases hfind : Orchd.findDoc o.db pid name with _ | doc
    · rw [hfind] at h
      obtain ⟨ruleset, path, hruleset, hpath, rfl⟩ := h
      simp only [bind_eq_ok, Faults.nothing_ruleset, query_none, ask_eq_ok]
      exact ⟨ruleset, _, ⟨hruleset, rfl⟩, by rw [hpath], rfl⟩
    · rw [hfind] at h
      exact pure_eq_ok.2 ⟨h.symm, rfl⟩

theorem upsertDoc_nothing (hwrite : ∀ p, host.write p = .ok ()) {pid name id : String} {now : ℤ} :
    (∃ d, Faults.nothing.upsertDoc host pid name content id now o = (.ok d, o')) ↔
      ((·.1) <$> o.upsertDoc host pid name content id now) = .ok o' := by
  simp only [Faults.upsertDoc, Orchd.upsertDoc, bind_eq_ok, openDoc_nothing,
    writeAtomic_nothing hwrite, Faults.nothing_statement, execute_none, Faults.nothing_commit,
    sql_none, Results.bind_eq_ok, ioError, Results.map_eq_ok, Faults.nothing_reload, query_none,
    pure_eq_ok]
  rcases hfind : Orchd.findDoc o.db pid name with _ | doc
  · simp only [Results.bind_eq_ok]
    constructor
    · rintro ⟨d, target, t, ⟨⟨hname, hactive, ruleset, path, hruleset, hpath, rfl⟩, rfl⟩, hash, t,
        ⟨hw, hdb⟩, -, -, ⟨s, hs, rfl⟩, -, -, ⟨-, rfl⟩, -, -, rfl, -, rfl⟩
      rw [← hdb] at hs
      refine ⟨(⟨s, t.files⟩, ⟨id, pid, name, path, hash, now, now⟩),
        ⟨(), hname, (), hactive, ruleset, hruleset, ?_⟩, rfl⟩
      rw [hpath]
      simp only [Results.bind_eq_ok, Results.mapError_eq_ok, Results.pure_eq_ok]
      exact ⟨_, hw, s, hs, rfl⟩
    · rintro ⟨a, ⟨u, hname, v, hactive, ruleset, hruleset, h⟩, rfl⟩
      split at h
      · simp at h
      · rename_i path hpath
        simp only [Results.bind_eq_ok, Results.mapError_eq_ok, Results.pure_eq_ok] at h
        obtain ⟨⟨fs, hash⟩, hw, s, hs, rfl⟩ := h
        have hstore : Faults.storeDoc pid name id hash now (.create path) o.db = .ok s := hs
        obtain ⟨d, hd⟩ := Faults.loadRow_storeDoc (fun _ h => absurd h (by simp)) hstore
        exact ⟨d, .create path, o, ⟨⟨hname, hactive, ruleset, path, hruleset, hpath, rfl⟩, rfl⟩,
          hash, ⟨o.db, fs⟩, ⟨hw, rfl⟩, (), _, ⟨s, hs, rfl⟩, d, _, ⟨hd, rfl⟩, (), _, rfl, rfl, rfl⟩
  · simp only [Results.bind_eq_ok, Results.mapError_eq_ok, Results.pure_eq_ok]
    constructor
    · rintro ⟨d, target, t, ⟨⟨hname, hactive, rfl⟩, rfl⟩, hash, t, ⟨hw, hdb⟩, -, -, ⟨s, hs, rfl⟩,
        -, -, ⟨-, rfl⟩, -, -, rfl, -, rfl⟩
      obtain rfl := Except.ok.inj hs
      rw [← hdb]
      exact ⟨_, ⟨(), hname, (), hactive, _, hw, rfl⟩, rfl⟩
    · rintro ⟨a, ⟨u, hname, v, hactive, ⟨fs, hash⟩, hw, rfl⟩, rfl⟩
      have hsave : ∀ x, Faults.DocTarget.save doc = .save x → o.db.docs.lookup x.id = some x := by
        intro x hx
        obtain rfl := Faults.DocTarget.save.inj hx
        exact (Orchd.findDoc_eq_some hfind).1
      have hstore : ∃ s, Faults.storeDoc pid name id hash now (.save doc) o.db = .ok s := ⟨_, rfl⟩
      obtain ⟨s, hs⟩ := hstore
      obtain ⟨d, hd⟩ := Faults.loadRow_storeDoc hsave hs
      obtain rfl := Except.ok.inj hs
      exact ⟨d, .save doc, o, ⟨⟨hname, hactive, rfl⟩, rfl⟩, hash, ⟨o.db, fs⟩, ⟨hw, rfl⟩, (), _,
        ⟨_, rfl, rfl⟩, d, _, ⟨hd, rfl⟩, (), _, rfl, rfl, rfl⟩

/-- The files once the one a workflow has moved from is gone. -/
def staleRemoved (host : Host) (fs : Files) (p : FilePath) :
    Option WorkflowRow → Except String Files
  | none => .ok fs
  | some old => if old.jsonPath = p then .ok fs else fs.removeIfExists host old.jsonPath

theorem removeStale_nothing (hremove : ∀ p, host.remove p = .ok ())
    {existing : Option WorkflowRow} {u : Unit} :
    Faults.nothing.removeStale p existing o = (.ok u, o') ↔
      staleRemoved host o.files p existing = .ok o'.files ∧ o.db = o'.db := by
  have hpure : (pure () : Verb Unit) o = (.ok u, o') ↔
      (.ok o.files : Except String Files) = .ok o'.files ∧ o.db = o'.db := by
    obtain ⟨db, files⟩ := o
    obtain ⟨db', files'⟩ := o'
    simp only [pure_eq_ok, true_and, Orchd.mk.injEq, Except.ok.injEq]
    exact and_comm
  rcases existing with _ | old
  · exact hpure
  · simp only [Faults.removeStale, staleRemoved, ne_eq, ite_not]
    split_ifs
    · exact hpure
    · exact removeIfExists_nothing hremove

theorem writeWorkflow_eq_ok {existing : Option WorkflowRow} {wf : Workflow} {gs : Files}
    {hash : String} :
    o.writeWorkflow host existing wf = .ok (gs, hash) ↔ ∃ fs,
      o.files.writeAtomic host wf.jsonPath (host.workflowJson wf) = .ok (fs, hash) ∧
        staleRemoved host fs wf.jsonPath existing = .ok gs := by
  have hsame : (∃ r, o.files.writeAtomic host wf.jsonPath (host.workflowJson wf) = .ok r ∧
      (r.1, r.2) = (gs, hash)) ↔ ∃ fs,
      o.files.writeAtomic host wf.jsonPath (host.workflowJson wf) = .ok (fs, hash) ∧
        (.ok fs : Except String Files) = .ok gs := by
    constructor
    · rintro ⟨⟨fs, h⟩, hw, heq⟩
      obtain ⟨rfl, rfl⟩ := Prod.mk.inj heq
      exact ⟨fs, hw, rfl⟩
    · rintro ⟨fs, hw, hfs⟩
      obtain rfl := Except.ok.inj hfs
      exact ⟨_, hw, rfl⟩
  simp only [Orchd.writeWorkflow, ioError, Results.bind_eq_ok, Results.mapError_eq_ok]
  rcases existing with _ | old
  · simp only [Results.pure_eq_ok]
    exact hsame
  · simp only [staleRemoved]
    split_ifs
    · simp only [Results.pure_eq_ok]
      exact hsame
    · simp only [Results.bind_eq_ok, Results.mapError_eq_ok, Results.pure_eq_ok]
      constructor
      · rintro ⟨⟨fs, h⟩, hw, gs', hremoved, heq⟩
        obtain ⟨rfl, rfl⟩ := Prod.mk.inj heq
        exact ⟨_, hw, hremoved⟩
      · rintro ⟨fs, hw, hremoved⟩
        exact ⟨_, hw, _, hremoved, rfl⟩

theorem openWorkflow_nothing {id : String} {w : WorkflowFields} {existing : Option WorkflowRow} :
    Faults.nothing.openWorkflow id w o = (.ok existing, o') ↔
      (validateWorkflow w = .ok () ∧
        o.db.ensureOptionalProjectActive w.effectiveProjectId = .ok () ∧
        Orchd.existingWorkflow o.db id = .ok existing) ∧ o = o' := by
  have hexisting : ∀ {x : Option WorkflowRow} {t : Orchd},
      Faults.nothing.existingWorkflow id o = (.ok x, t) ↔
        Orchd.existingWorkflow o.db id = .ok x ∧ o = t := by
    intro x t
    unfold Faults.existingWorkflow Orchd.existingWorkflow
    split_ifs
    · simp
    · rw [Faults.nothing_lookup, query_none]
  simp only [Faults.openWorkflow, bind_eq_ok, ask_eq_ok, Faults.nothing_transaction,
    Faults.nothing_serialize, io_none, sql_none, ensureOptionalProjectActive_nothing, pure_eq_ok]
  constructor
  · rintro ⟨u, t, ⟨hvalid, rfl⟩, -, t, rfl, v, t, ⟨hactive, rfl⟩, x, t, hx, -, t', rfl, rfl, rfl⟩
    obtain ⟨hexists, rfl⟩ := hexisting.1 hx
    exact ⟨⟨hvalid, hactive, hexists⟩, rfl⟩
  · rintro ⟨⟨hvalid, hactive, hx⟩, rfl⟩
    exact ⟨(), _, ⟨hvalid, rfl⟩, (), _, rfl, (), _, ⟨hactive, rfl⟩, _, _, hexisting.2 ⟨hx, rfl⟩,
      (), _, rfl, rfl, rfl⟩

theorem upsertWorkflow_nothing (hwrite : ∀ p, host.write p = .ok ())
    (hremove : ∀ p, host.remove p = .ok ()) {id newId : String} {w : WorkflowFields} {now : ℤ} :
    (∃ r, Faults.nothing.upsertWorkflow host id w newId now o = (.ok r, o')) ↔
      ((·.1) <$> o.upsertWorkflow host id w newId now) = .ok o' := by
  simp only [Faults.upsertWorkflow, Orchd.upsertWorkflow, bind_eq_ok, openWorkflow_nothing,
    writeAtomic_nothing hwrite, Faults.nothing_statement, execute_none, Faults.nothing_commit,
    sql_none, removeStale_nothing hremove, Results.bind_eq_ok, Results.pure_eq_ok,
    Results.map_eq_ok, Faults.nothing_reload, query_none, pure_eq_ok]
  constructor
  · rintro ⟨r, existing, t, ⟨⟨hvalid, hactive, hexists⟩, rfl⟩, hash, t, ⟨hw, hdb⟩, -, t',
      ⟨hremoved, hdb'⟩, -, -, ⟨s, ⟨x, hx, rfl⟩, rfl⟩, -, -, ⟨-, rfl⟩, -, -, rfl, -, rfl⟩
    rw [← hdb', ← hdb] at hx
    exact ⟨_, ⟨(), hvalid, (), hactive, existing, hexists, _,
      writeWorkflow_eq_ok.2 ⟨t.files, hw, hremoved⟩, x, hx, rfl⟩, rfl⟩
  · rintro ⟨a, ⟨u, hvalid, v, hactive, existing, hexists, ⟨gs, hash⟩, hwritten, x, hx, rfl⟩, rfl⟩
    obtain ⟨fs, hw, hremoved⟩ := writeWorkflow_eq_ok.1 hwritten
    obtain ⟨t, ht, row, hrow⟩ := Faults.loadRow_storeWorkflow o.db _
    rw [hx] at ht
    obtain rfl := Except.ok.inj ht
    exact ⟨row, existing, o, ⟨⟨hvalid, hactive, hexists⟩, rfl⟩, hash, ⟨o.db, fs⟩, ⟨hw, rfl⟩, (),
      ⟨o.db, gs⟩, ⟨hremoved, rfl⟩, (), _, ⟨_, ⟨x, hx, rfl⟩, rfl⟩, row, _, ⟨hrow, rfl⟩, (), _, rfl,
      rfl, rfl⟩

/-- When nothing fails, the verbs do what they do. -/
theorem call_nothing (hwrite : ∀ p, host.write p = .ok ()) (hremove : ∀ p, host.remove p = .ok ())
    {verb : FileVerb} : verb.call .nothing host o = (.ok (), o') ↔ verb.run host o = .ok o' := by
  rw [call, transact_eq_ok]
  cases verb with
  | upsertRuleset scope pid content path policy now =>
    rw [attempt, discard_eq_ok, upsertRuleset_nothing hwrite]
    rfl
  | upsertDoc pid name content id now =>
    rw [attempt, discard_eq_ok, upsertDoc_nothing hwrite]
    rfl
  | upsertWorkflow id w newId now =>
    rw [attempt, discard_eq_ok, upsertWorkflow_nothing hwrite hremove]
    rfl
  | deleteDoc id =>
    simp only [attempt, run, Faults.deleteDoc, Orchd.deleteDoc, bind_eq_ok, openChild_nothing,
      removeIfExists_nothing hremove, Faults.nothing_statement, execute_none,
      Faults.nothing_commit, sql_none, Results.bind_eq_ok, Results.pure_eq_ok, ioError,
      Results.map_eq_ok, Results.mapError_eq_ok, pure_eq_ok]
    constructor
    · rintro ⟨doc, t, ⟨row, t, ⟨hrow, rfl⟩, -, t, ⟨hremoved, hdb⟩, -, t, ⟨s, hs, rfl⟩, -, t, rfl,
        rfl, rfl⟩, -, rfl⟩
      obtain rfl := Except.ok.inj hs
      exact ⟨_, ⟨row, hrow, _, hremoved, rfl⟩, by rw [hdb]⟩
    · rintro ⟨r, ⟨row, hrow, fs, hremoved, rfl⟩, rfl⟩
      exact ⟨row, _, ⟨row, _, ⟨hrow, rfl⟩, (), ⟨o.db, fs⟩, ⟨hremoved, rfl⟩, (), _, ⟨_, rfl, rfl⟩,
        (), _, rfl, rfl, rfl⟩, trivial, rfl⟩
  | deleteWorkflow id =>
    simp only [attempt, run, Faults.deleteWorkflow, Orchd.deleteWorkflow, bind_eq_ok,
      openChild_nothing, removeIfExists_nothing hremove, Faults.nothing_statement, execute_none,
      Faults.nothing_commit, sql_none, Results.bind_eq_ok, Results.pure_eq_ok, ioError,
      Results.mapError_eq_ok]
    constructor
    · rintro ⟨row, t, ⟨hrow, rfl⟩, -, t, ⟨hremoved, hdb⟩, -, t, ⟨s, hs, rfl⟩, rfl⟩
      obtain rfl := Except.ok.inj hs
      exact ⟨row, hrow, _, hremoved, by rw [hdb]⟩
    · rintro ⟨row, hrow, fs, hremoved, rfl⟩
      exact ⟨row, _, ⟨hrow, rfl⟩, (), ⟨o.db, fs⟩, ⟨hremoved, rfl⟩, (), _, ⟨_, rfl, rfl⟩, rfl⟩

end Nothing

end FileVerb

end BuilderPro
