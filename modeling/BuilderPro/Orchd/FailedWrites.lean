import BuilderPro.Orchd.FailureSteps

/-!
# Writes that fail

A failed verb leaves everything as it was exactly when what it had done to the files by then changed
nothing (`failed_call_unchanged_iff`).
-/

namespace BuilderPro

namespace Faults

open Attempt

variable {φ : Faults} {host : Host} {o : Orchd} {fs : Files} {p : FilePath} {content : String}

/-- A verb's last part after its write, when it fails with the files as they were. -/
theorem failsIn_written {β : Type} {x : Verb β} {later : Prop} (hkeep : Keeps Orchd.files x)
    (hfails : Fails x ⟨o.db, o.files.written p content⟩ ↔ later) :
    FailsIn (fun t => t.files = o.files) x ⟨o.db, o.files.written p content⟩ ↔
      (later → o.files.Holds p content) := by
  rw [hkeep.failsIn_iff, hfails]
  exact imp_congr_right fun _ => Files.written_eq_self_iff

theorem loadRow_storeRuleset {s : Store} {row : RuleSet} {path : FilePath} {hash : Option String}
    {policy : Option PolicyRules} {now : ℤ} (h : s.rulesets.lookup row.id = some row) :
    ∃ (t : Store) (r : RuleSet), storeRuleset row path hash policy now s = .ok t ∧
      t.loadRow row.id = .ok r := by
  refine ⟨_, { row with
    mdPath := path, mdHash := hash.getD row.mdHash, policy := policy.getD row.policy,
    updatedAt := now }, rfl, ?_⟩
  rw [Store.loadRow_eq_ok]
  change (s.rulesets.replace _).lookup _ = some _
  refine (KeyedTable.lookup_replace (y := row) ?_).trans (if_pos rfl)
  exact h

theorem loadRow_replaceDoc {s : Store} {x y : Doc} (h : s.docs.lookup x.id = some y) :
    (s.replaceRow x).loadRow x.id = .ok x := by
  rw [Store.loadRow_eq_ok]
  change (s.docs.replace x).lookup x.id = some x
  rw [KeyedTable.lookup_replace h, if_pos rfl]

theorem openRuleset_eq_ok {scope : RuleScope} {pid : Option String} {path : Option FilePath}
    {policy : Option PolicyRules} {r : RuleSet × Option PolicyRules}
    (h : (φ.openRuleset host scope pid path policy o).1 = .ok r) :
    o.db.rulesets.lookup r.1.id = some r.1 := by
  simp only [openRuleset, asks_ask.bind_eq_ok, asks_sql.bind_eq_ok, asks_query.bind_eq_ok,
    asks_ensureOptionalProjectActive.bind_eq_ok, query_eq_ok] at h
  obtain ⟨-, -, policy, -, -, -, -, -, row, ⟨-, hrow⟩, hr⟩ := h
  obtain rfl := Except.ok.inj hr
  exact (Orchd.loadRulesetByScope_eq_ok hrow).1

theorem failsIn_upsertRuleset {scope : RuleScope} {pid mdContent : Option String}
    {path : Option FilePath} {policy : Option PolicyRules} {now : ℤ} :
    FailsIn (fun t => t.files = o.files)
        (φ.upsertRuleset host scope pid mdContent path policy now) o ↔
      (FileVerb.upsertRuleset scope pid mdContent path policy now).Spares φ host o := by
  have hstart : (fun t : Orchd => t.files = o.files) o := rfl
  unfold upsertRuleset FileVerb.Spares
  rw [asks_openRuleset.failsIn_bind hstart]
  refine forall_congr' fun r => forall_congr' fun hr => ?_
  have hlookup := openRuleset_eq_ok hr
  obtain ⟨row, policy⟩ := r
  -- the part after the write
  have hkeep : ∀ hash : Option String, Keeps Orchd.files (do
      execute φ.statement (storeRuleset row (path.getD row.mdPath) hash policy now)
      let ruleset ← query φ.reload fun s => s.loadRow row.id
      io φ.decode
      sql φ.commit
      return ruleset : Verb RuleSet) := by
    intro hash
    refine keeps_execute.bind fun _ => (asks_query.bind fun _ => ?_).keeps
    exact asks_io.bind fun _ => asks_sql.bind fun _ => asks_pure
  rcases mdContent with _ | c
  · refine iff_of_true ?_ (fun c hc => absurd hc.symm (Option.some_ne_none c))
    exact (hkeep none).failsIn_iff.2 fun _ => rfl
  · simp only [Option.some.injEq, forall_eq']
    refine Iff.trans (Eq.to_iff (congrFun (congrArg _ map_bind) o)) ?_
    refine failsIn_writeAtomic_bind (failsIn_written (hkeep _) ?_)
    have hstore : ∃ (t : Store) (r : RuleSet), storeRuleset row (path.getD row.mdPath)
        (some (host.sha256Hex c)) policy now o.db = .ok t ∧ t.loadRow row.id = .ok r :=
      loadRow_storeRuleset hlookup
    obtain ⟨t, r, ht, hload⟩ := hstore
    rw [fails_execute_bind ht, fails_query_bind hload, fails_io_bind,
      fails_sql_bind, iff_false_intro not_fails_pure, FileVerb.RowFails]
    tauto

theorem openDoc_save {pid name : String} {doc : Doc}
    (h : (φ.openDoc pid name o).1 = .ok (.save doc)) : o.db.docs.lookup doc.id = some doc := by
  simp only [openDoc, asks_ask.bind_eq_ok, asks_sql.bind_eq_ok, asks_query.bind_eq_ok,
    query_eq_ok, Except.ok.injEq] at h
  obtain ⟨-, -, -, -, -, -, existing, ⟨-, hfind⟩, h⟩ := h
  rcases existing with _ | found
  · simp only [asks_query.bind_eq_ok, ask] at h
    obtain ⟨ruleset, -, h⟩ := h
    split at h <;> simp at h
  · simp only [pure_apply, Except.ok.injEq, DocTarget.save.injEq] at h
    subst h
    exact (Orchd.findDoc_eq_some hfind).1

/-- The row of a doc is there once its statement has gone through. -/
theorem loadRow_storeDoc {pid name id hash : String} {now : ℤ} {target : DocTarget} {s t : Store}
    (hsave : ∀ doc, target = .save doc → s.docs.lookup doc.id = some doc)
    (h : storeDoc pid name id hash now target s = .ok t) :
    ∃ d : Doc, t.loadRow (target.id id) = .ok d := by
  rcases target with doc | path
  · obtain rfl := Except.ok.inj h
    refine ⟨{ doc with mdHash := hash, updatedAt := now }, loadRow_replaceDoc (y := doc) ?_⟩
    exact hsave doc rfl
  · obtain ⟨u, hu, rfl⟩ := Store.insertRow_eq_ok h
    refine ⟨⟨id, pid, name, path, hash, now, now⟩, Store.loadRow_eq_ok.2 ?_⟩
    change u.lookup id = _
    rw [KeyedTable.lookup_insert hu]
    exact if_pos rfl

theorem failsIn_upsertDoc {pid name id : String} {now : ℤ} :
    FailsIn (fun t => t.files = o.files) (φ.upsertDoc host pid name content id now) o ↔
      (FileVerb.upsertDoc pid name content id now).Spares φ host o := by
  have hstart : (fun t : Orchd => t.files = o.files) o := rfl
  unfold upsertDoc FileVerb.Spares
  rw [asks_openDoc.failsIn_bind hstart]
  refine forall_congr' fun target => forall_congr' fun htarget => ?_
  refine failsIn_writeAtomic_bind (failsIn_written ?_ ?_)
  · refine keeps_execute.bind fun _ => (asks_query.bind fun _ => ?_).keeps
    exact asks_sql.bind fun _ => asks_pure
  · rcases hstore : storeDoc pid name id (host.sha256Hex content) now target o.db with e | t
    · exact iff_of_true (fails_execute_of_error hstore) (.inr ⟨e, rfl⟩)
    · have hsave : ∀ doc, target = .save doc → o.db.docs.lookup doc.id = some doc := by
        rintro doc rfl
        exact openDoc_save htarget
      obtain ⟨d, hd⟩ := loadRow_storeDoc hsave hstore
      rw [fails_execute_bind hstore, fails_query_bind hd, fails_sql_bind,
        iff_false_intro not_fails_pure, FileVerb.RowFails]
      simp only [or_false, reduceCtorEq, exists_false]

/-- A removal, when what comes after it fails with the files as they were. -/
theorem failsIn_removeIfExists_bind {β : Type} {k : Unit → Verb β} {later : Prop}
    (hkeep : Keeps Orchd.files (k ()))
    (hfails : ∀ gs : Files, Fails (k ()) ⟨o.db, gs⟩ ↔ later) :
    FailsIn (fun t => t.files = o.files) (φ.removeIfExists p >>= k) o ↔
      (φ.removeFile = none → later → o.files p = .missing) := by
  by_cases hmissing : o.files p = .missing
  · have hok : φ.removeIfExists p o = (.ok (), o) := by
      rw [removeIfExists, hmissing]
    refine iff_of_true ?_ fun _ _ => hmissing
    unfold FailsIn
    rw [bind_of_ok hok]
    exact hkeep.failsIn_iff.2 fun _ => rfl
  · rcases hr : φ.removeFile with _ | m
    · have hok : φ.removeIfExists p o = (.ok (), ⟨o.db, o.files.put p .missing⟩) := by
        rw [removeIfExists]
        split
        · contradiction
        · simp [io, hr, bind_apply, fault, ask, change]
      have hiff := hkeep.failsIn_iff (s := ⟨o.db, o.files.put p .missing⟩) (v := o.files)
      unfold FailsIn at hiff ⊢
      rw [bind_of_ok hok, hiff, hfails]
      refine Iff.trans (imp_congr_right fun _ => Files.put_eq_self_iff) ?_
      exact (imp_iff_right rfl).symm
    · have herr : φ.removeIfExists p o = (.error (.io m), o) := by
        rw [removeIfExists]
        split
        · contradiction
        · simp [io, hr, bind_apply, fault, ask]
      refine iff_of_true ?_ fun hnone => absurd hnone (Option.some_ne_none m)
      unfold FailsIn
      rw [bind_of_error herr]
      rintro e t ht
      obtain ⟨-, rfl⟩ := Prod.mk.inj ht
      rfl

theorem failsIn_deleteDoc {id : String} :
    FailsIn (fun t => t.files = o.files) (φ.deleteDoc id) o ↔
      (FileVerb.deleteDoc id).Spares φ host o := by
  have hstart : (fun t : Orchd => t.files = o.files) o := rfl
  unfold deleteDoc FileVerb.Spares
  rw [asks_openChild.failsIn_bind hstart]
  refine forall_congr' fun doc => forall_congr' fun _ => failsIn_removeIfExists_bind ?_ fun fs => ?_
  · exact keeps_execute.bind fun _ => (asks_sql.bind fun _ => asks_pure).keeps
  · rw [fails_update_bind, fails_sql_bind, iff_false_intro not_fails_pure, or_false]

theorem failsIn_deleteWorkflow {id : String} :
    FailsIn (fun t => t.files = o.files) (φ.deleteWorkflow id) o ↔
      (FileVerb.deleteWorkflow id).Spares φ host o := by
  have hstart : (fun t : Orchd => t.files = o.files) o := rfl
  unfold deleteWorkflow FileVerb.Spares
  rw [asks_openChild.failsIn_bind hstart]
  refine forall_congr' fun row => forall_congr' fun _ => failsIn_removeIfExists_bind ?_ fun fs => ?_
  · exact keeps_execute.bind fun _ => asks_sql.keeps
  · rw [fails_update_bind, fails_sql]

theorem loadRow_storeWorkflow (s : Store) (x : WorkflowRow) : ∃ t : Store,
    ((·.1) <$> Orchd.storeWorkflow s x) = .ok t ∧ ∃ row : WorkflowRow, t.loadRow x.id = .ok row := by
  unfold Orchd.storeWorkflow
  split
  · rename_i old hold
    refine ⟨_, rfl, { x with createdAt := old.createdAt }, ?_⟩
    rw [Store.loadRow_eq_ok]
    change (s.workflows.replace _).lookup _ = some _
    refine (KeyedTable.lookup_replace (y := old) ?_).trans (if_pos rfl)
    exact hold
  · rename_i hnone
    obtain ⟨u, hu⟩ := KeyedTable.exists_insert (t := s.workflows) (x := x) hnone
    have hinsert : s.insertRow x (.sql "UNIQUE constraint failed: workflow.id") =
        .ok (ProjectChild.setTable s u) := by
      unfold Store.insertRow
      simp only [ProjectChild.table, hu]
    rw [hinsert]
    refine ⟨_, rfl, x, ?_⟩
    rw [Store.loadRow_eq_ok]
    change u.lookup x.id = some x
    rw [KeyedTable.lookup_insert hu]
    exact if_pos rfl

theorem written_apply_of_ne {q : FilePath} (hp : q ≠ p) (htmp : q ≠ p.tmpPathFor) :
    fs.written p content q = fs q := by
  rw [Files.written, Files.put, if_neg hp, Files.put, if_neg htmp]

theorem written_tmp : fs.written p content p.tmpPathFor = .missing := by
  rw [Files.written, Files.put, if_neg p.tmpPathFor_ne, Files.put, if_pos rfl]

/-- The part of `upsert_workflow` after the write. -/
theorem failsIn_removeStale_bind {β : Type} {k : Unit → Verb β} {later : Prop}
    {existing : Option WorkflowRow} (hkeep : Keeps Orchd.files (k ()))
    (hfails : ∀ gs : Files, Fails (k ()) ⟨o.db, gs⟩ ↔ later) :
    FailsIn (fun t => t.files = o.files) (φ.removeStale p existing >>= k)
        ⟨o.db, o.files.written p content⟩ ↔
      (later ∨ φ.removeFile.isSome ∧ FileVerb.Stale o.files p existing →
        o.files.Holds p content) ∧
      (φ.removeFile = none → later → ∀ old, existing = some old → old.jsonPath ≠ p →
        o.files old.jsonPath = .missing) := by
  -- nothing is removed
  have hpure : ¬FileVerb.Stale o.files p existing →
      (o.files.Holds p content → ∀ old, existing = some old → old.jsonPath ≠ p →
        o.files old.jsonPath = .missing) →
      φ.removeStale p existing ⟨o.db, o.files.written p content⟩ =
        (.ok (), ⟨o.db, o.files.written p content⟩) →
      (FailsIn (fun t => t.files = o.files) (φ.removeStale p existing >>= k)
          ⟨o.db, o.files.written p content⟩ ↔
        (later ∨ φ.removeFile.isSome ∧ FileVerb.Stale o.files p existing →
          o.files.Holds p content) ∧
        (φ.removeFile = none → later → ∀ old, existing = some old → old.jsonPath ≠ p →
          o.files old.jsonPath = .missing)) := by
    intro hstale hmissing hok
    have htail := failsIn_written hkeep (hfails (o.files.written p content))
    unfold FailsIn at htail ⊢
    rw [bind_of_ok hok, htail]
    constructor
    · exact fun h => ⟨fun hl => h (hl.resolve_right fun hs => hstale hs.2),
        fun _ hl => hmissing (h hl)⟩
    · exact fun h hl => h.1 (.inl hl)
  rcases existing with _ | old
  · refine hpure ?_ (fun _ old hold => absurd hold.symm (Option.some_ne_none old)) rfl
    rintro ⟨old, hold, -⟩
    exact absurd hold.symm (Option.some_ne_none old)
  · by_cases hmoved : old.jsonPath ≠ p
    · by_cases hgone : o.files.written p content old.jsonPath = .missing
      · have hleft : o.files old.jsonPath = .missing ∨ old.jsonPath = p.tmpPathFor := by
          by_cases htmp : old.jsonPath = p.tmpPathFor
          · exact .inr htmp
          · rw [written_apply_of_ne hmoved htmp] at hgone
            exact .inl hgone
        refine hpure ?_ ?_ ?_
        · rintro ⟨x, hx, -, htmp, hne⟩
          obtain rfl := Option.some.inj hx
          exact hleft.elim hne htmp
        · intro hholds x hx _
          obtain rfl := Option.some.inj hx
          refine hleft.elim id fun htmp => ?_
          rw [htmp]
          exact hholds.2
        · rw [removeStale, if_pos hmoved, removeIfExists]
          simp only [hgone]
      · have htmp : old.jsonPath ≠ p.tmpPathFor := by
          intro htmp
          rw [htmp] at hgone
          exact hgone written_tmp
        have hold := hgone
        rw [written_apply_of_ne hmoved htmp] at hold
        have hstale : FileVerb.Stale o.files p (some old) := ⟨old, rfl, hmoved, htmp, hold⟩
        rcases hr : φ.removeFile with _ | m
        · -- the old file is gone, which it was not before
          have hok : φ.removeStale p (some old) ⟨o.db, o.files.written p content⟩ =
              (.ok (), ⟨o.db, (o.files.written p content).put old.jsonPath .missing⟩) := by
            rw [removeStale, if_pos hmoved, removeIfExists]
            split
            · contradiction
            · simp [io, hr, bind_apply, fault, ask, change]
          have htail := hkeep.failsIn_iff (v := o.files)
            (s := ⟨o.db, (o.files.written p content).put old.jsonPath .missing⟩)
          have hchanged : (o.files.written p content).put old.jsonPath .missing ≠ o.files := by
            intro heq
            refine hold ?_
            rw [← heq, Files.put, if_pos rfl]
          unfold FailsIn at htail ⊢
          rw [bind_of_ok hok, htail, hfails]
          constructor
          · intro h
            have hl : ¬later := fun hl => hchanged (h hl)
            exact ⟨fun hl' => absurd hl' (by simp [hl]), fun _ hl' => absurd hl' hl⟩
          · intro h hl
            exact absurd (h.2 rfl hl old rfl hmoved) hold
        · have herr : φ.removeStale p (some old) ⟨o.db, o.files.written p content⟩ =
              (.error (.io m), ⟨o.db, o.files.written p content⟩) := by
            rw [removeStale, if_pos hmoved, removeIfExists]
            split
            · contradiction
            · simp [io, hr, bind_apply, fault, ask]
          unfold FailsIn
          rw [bind_of_error herr]
          constructor
          · intro h
            have hholds := Files.written_eq_self_iff.1 (h _ _ rfl)
            exact ⟨fun _ => hholds, fun hnone => absurd hnone (Option.some_ne_none m)⟩
          · rintro ⟨h, -⟩ e t ht
            obtain ⟨-, rfl⟩ := Prod.mk.inj ht
            exact Files.written_eq_self_iff.2 (h (.inr ⟨rfl, hstale⟩))
    · refine hpure ?_ (fun _ x hx hne => ?_) ?_
      · rintro ⟨x, hx, hne, -⟩
        obtain rfl := Option.some.inj hx
        exact hmoved hne
      · obtain rfl := Option.some.inj hx
        exact absurd hne hmoved
      · rw [removeStale, if_neg hmoved]
        rfl

theorem failsIn_upsertWorkflow {id newId : String} {w : WorkflowFields} {now : ℤ} :
    FailsIn (fun t => t.files = o.files) (φ.upsertWorkflow host id w newId now) o ↔
      (FileVerb.upsertWorkflow id w newId now).Spares φ host o := by
  have hstart : (fun t : Orchd => t.files = o.files) o := rfl
  unfold upsertWorkflow FileVerb.Spares
  rw [asks_openWorkflow.failsIn_bind hstart]
  simp only [forall_eq]
  refine forall_congr' fun existing => forall_congr' fun _ => failsIn_writeAtomic_bind ?_
  refine failsIn_removeStale_bind ?_ fun gs => ?_
  · refine keeps_execute.bind fun _ => (asks_query.bind fun _ => ?_).keeps
    exact asks_sql.bind fun _ => asks_pure
  · obtain ⟨t, ht, row, hrow⟩ := loadRow_storeWorkflow o.db _
    rw [fails_execute_bind ht, fails_query_bind hrow, fails_sql_bind,
      iff_false_intro not_fails_pure, FileVerb.RowFails, or_false]

end Faults

namespace FileVerb

open Attempt

variable {φ : Faults} {host : Host} {o : Orchd}

theorem failsIn_attempt {verb : FileVerb} :
    FailsIn (fun t => t.files = o.files) (verb.attempt φ host) o ↔ verb.Spares φ host o := by
  cases verb with
  | upsertRuleset scope pid content path policy now =>
    exact failsIn_discard.trans Faults.failsIn_upsertRuleset
  | upsertDoc pid name content id now => exact failsIn_discard.trans Faults.failsIn_upsertDoc
  | deleteDoc id => exact failsIn_discard.trans Faults.failsIn_deleteDoc
  | upsertWorkflow id w newId now => exact failsIn_discard.trans Faults.failsIn_upsertWorkflow
  | deleteWorkflow id => exact Faults.failsIn_deleteWorkflow

def notesPath : FilePath := ⟨true, ["app", "rules", "docs", "p", "notes.md"]⟩

/-- A project with a doc. -/
def withNotes : Orchd where
  db :=
    { Store.empty with
      projects := ⟨[⟨"p", "notes", "", .active, 0, 0⟩], List.nodup_singleton _⟩
      docs := ⟨[⟨"d", "p", "notes", notesPath, "old", 0, 0⟩], List.nodup_singleton _⟩ }
  files p := if p = notesPath then .file "old" else .missing

def commitFails : Faults := { Faults.nothing with commit := some "disk I/O error" }

end FileVerb

end BuilderPro
