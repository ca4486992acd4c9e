import BuilderPro.Orchd.FailableVerbs

/-!
# The steps of a verb that may fail

A staged write has changed the file or its staging name up to the step that fails
(`Faults.failsIn_writeAtomic_bind`).  What a verb asks before its files changes nothing, and what
comes after them fails by its own faults only (`Faults.fails_execute_bind`).
-/

namespace BuilderPro

theorem FilePath.tmpPathFor_ne (p : FilePath) : p.tmpPathFor ≠ p := by
  unfold tmpPathFor
  rcases hlast : p.components.getLast? with _ | c
  · rw [List.getLast?_eq_none_iff] at hlast
    intro h
    have hcomponents := congrArg components h
    have hparse : parse ".tmp" = ⟨false, [".tmp"]⟩ := by decide
    simp [join, hlast, hparse] at hcomponents
  · intro h
    have hcomponents := congrArg (fun q => q.components.getLast?) h
    simp only [hlast, List.getLast?_concat, Option.some.injEq] at hcomponents
    have hlength := congrArg String.length hcomponents
    rw [String.length_append] at hlength
    have htmp : ".tmp".length = 4 := rfl
    omega

theorem Files.put_eq_self_iff {fs : Files} {p : FilePath} {x : OnDisk} :
    fs.put p x = fs ↔ fs p = x := by
  constructor
  · intro h
    rw [← h, Files.put, if_pos rfl]
  · rintro rfl
    funext q
    unfold Files.put
    split_ifs with hq
    · rw [hq]
    · rfl

/-- The files once a content is written. -/
def Files.written (fs : Files) (p : FilePath) (content : String) : Files :=
  (fs.put p.tmpPathFor .missing).put p (.file content)

theorem Files.written_eq_self_iff {fs : Files} {p : FilePath} {content : String} :
    fs.written p content = fs ↔ fs.Holds p content := by
  have hne := p.tmpPathFor_ne
  constructor
  · intro h
    constructor
    · rw [← h, written, put, if_pos rfl]
    · rw [← h, written, put, if_neg hne, put, if_pos rfl]
  · rintro ⟨hfile, htmp⟩
    rw [written, put_eq_self_iff.2 htmp, put_eq_self_iff.2 hfile]

namespace Faults

open Attempt

variable {φ : Faults} {host : Host} {o : Orchd} {fs : Files} {p : FilePath} {content : String}

theorem writeAtomic_of_createDirAll {m : String} (hparent : p.parent.isSome)
    (h : φ.createDirAll = some m) :
    φ.writeAtomic host p content o = (.error (.io m), o) := by
  simp [writeAtomic, hparent, io, h, bind_apply, fault, ask]

theorem writeAtomic_of_write {m : String} {left : OnDisk}
    (hdirs : p.parent.isSome → φ.createDirAll = none) (h : φ.write = some (m, left)) :
    φ.writeAtomic host p content o = (.error (.io m), ⟨o.db, o.files.put p.tmpPathFor left⟩) := by
  by_cases hparent : p.parent.isSome
  · simp [writeAtomic, hparent, io, hdirs hparent, bind_apply, fault, ask, writeStaged, h]
  · simp [writeAtomic, hparent, bind_apply, writeStaged, h]

theorem writeAtomic_of_rename {m : String} (hdirs : p.parent.isSome → φ.createDirAll = none)
    (hw : φ.write = none) (h : φ.rename = some m) :
    φ.writeAtomic host p content o =
      (.error (.io m), ⟨o.db, o.files.put p.tmpPathFor (.file content)⟩) := by
  by_cases hparent : p.parent.isSome
  · simp [writeAtomic, hparent, io, hdirs hparent, bind_apply, fault, ask, writeStaged, hw,
      renameStaged, h]
  · simp [writeAtomic, hparent, io, bind_apply, fault, ask, writeStaged, hw, renameStaged, h]

theorem writeAtomic_done (hdirs : p.parent.isSome → φ.createDirAll = none)
    (hw : φ.write = none) (h : φ.rename = none) :
    φ.writeAtomic host p content o =
      (.ok (host.sha256Hex content), ⟨o.db, o.files.written p content⟩) := by
  have hrenamed : ((o.files.put p.tmpPathFor (.file content)).put p.tmpPathFor .missing).put p
      (o.files.put p.tmpPathFor (.file content) p.tmpPathFor) = o.files.written p content := by
    funext q
    simp only [Files.put, Files.written, if_true]
    split_ifs <;> rfl
  by_cases hparent : p.parent.isSome
  · simp [writeAtomic, hparent, io, hdirs hparent, bind_apply, fault, ask, writeStaged, hw,
      renameStaged, h, change, hrenamed]
  · simp [writeAtomic, hparent, io, bind_apply, fault, ask, writeStaged, hw, renameStaged, h,
      change, hrenamed]

/-- When a write and what comes after it fail with the files as they were. -/
theorem failsIn_writeAtomic_bind {β : Type} {k : String → Verb β} {later : Prop}
    (hlater : FailsIn (fun t => t.files = o.files) (k (host.sha256Hex content))
      ⟨o.db, o.files.written p content⟩ ↔ later) :
    FailsIn (fun t => t.files = o.files) (φ.writeAtomic host p content >>= k) o ↔
      φ.StagingSpares o.files p content ∧ (φ.Writes p → later) := by
  unfold FailsIn
  by_cases hdirs : p.parent.isSome → φ.createDirAll = none
  · rcases hw : φ.write with _ | ⟨m, left⟩
    · rcases hr : φ.rename with _ | m
      · rw [bind_of_ok (writeAtomic_done hdirs hw hr)]
        refine hlater.trans ⟨fun h => ⟨⟨?_, ?_⟩, fun _ => h⟩, fun h => h.2 ⟨hdirs, hw, hr⟩⟩
        · intro _ m left hsome
          exact absurd (hw.symm.trans hsome) (Option.some_ne_none _).symm
        · intro _ _ hsome
          rw [hr] at hsome
          exact absurd hsome Bool.false_ne_true
      · rw [bind_of_error (writeAtomic_of_rename hdirs hw hr)]
        constructor
        · intro h
          have hput := Files.put_eq_self_iff.1 (h _ _ rfl)
          refine ⟨⟨?_, fun _ _ _ => hput⟩, fun hwrites => ?_⟩
          · intro _ m left hsome
            exact absurd (hw.symm.trans hsome) (Option.some_ne_none _).symm
          · exact absurd (hr.symm.trans hwrites.rename) (Option.some_ne_none _)
        · rintro ⟨h, -⟩ e t ht
          obtain ⟨-, rfl⟩ := Prod.mk.inj ht
          exact Files.put_eq_self_iff.2 (h.rename hdirs hw (by rw [hr]; rfl))
    · rw [bind_of_error (writeAtomic_of_write hdirs hw)]
      constructor
      · intro h
        have hput := Files.put_eq_self_iff.1 (h _ _ rfl)
        refine ⟨⟨?_, ?_⟩, fun hwrites => ?_⟩
        · intro _ m' left' hsome
          rw [hw, Option.some.injEq, Prod.mk.injEq] at hsome
          rw [← hsome.2]
          exact hput
        · intro _ hnone
          exact absurd (hw.symm.trans hnone) (Option.some_ne_none _)
        · exact absurd (hw.symm.trans hwrites.write) (Option.some_ne_none _)
      · rintro ⟨h, -⟩ e t ht
        obtain ⟨-, rfl⟩ := Prod.mk.inj ht
        exact Files.put_eq_self_iff.2 (h.write hdirs m left hw)
  · obtain ⟨hparent, hsome⟩ := Classical.not_imp.1 hdirs
    obtain ⟨m, hm⟩ := Option.ne_none_iff_exists'.1 hsome
    rw [bind_of_error (writeAtomic_of_createDirAll hparent hm)]
    constructor
    · intro _
      exact ⟨⟨fun h => absurd h hdirs, fun h => absurd h hdirs⟩, fun h => absurd h.dirs hdirs⟩
    · intro _ e t ht
      obtain ⟨-, rfl⟩ := Prod.mk.inj ht
      rfl

/-! ### What is asked -/

section Asked

theorem asks_sql {e : Option String} : Asks (sql e) := asks_fault

theorem asks_io {e : Option String} : Asks (io e) := asks_fault

theorem asks_query {α : Type} {e : Option String} {x : Store → Except OrchdPersistError α} :
    Asks (query e x) := asks_sql.bind fun _ => asks_ask

theorem query_eq_ok {α : Type} {e : Option String} {x : Store → Except OrchdPersistError α}
    {a : α} : (query e x o).1 = .ok a ↔ e = none ∧ x o.db = .ok a := by
  rcases e with _ | m
  · rw [query, asks_sql.bind_eq_ok]
    simp [sql, fault, ask]
  · rw [query, asks_sql.bind_eq_ok]
    simp [sql, fault, ask]

theorem asks_ensureOptionalProjectActive {pid : Option String} :
    Asks (φ.ensureOptionalProjectActive pid) := by
  rcases pid with _ | p
  · exact asks_pure
  · exact asks_query

theorem asks_openRuleset {scope : RuleScope} {pid : Option String} {path : Option FilePath}
    {policy : Option PolicyRules} : Asks (φ.openRuleset host scope pid path policy) := by
  refine asks_ask.bind fun _ => asks_ask.bind fun _ => asks_sql.bind fun _ => ?_
  exact asks_ensureOptionalProjectActive.bind fun _ => asks_query.bind fun _ => asks_pure

theorem asks_openDoc {pid name : String} : Asks (φ.openDoc pid name) := by
  refine asks_ask.bind fun _ => asks_sql.bind fun _ => asks_query.bind fun _ => ?_
  refine asks_query.bind fun existing => ?_
  rcases existing with _ | doc
  · exact asks_query.bind fun _ => asks_ask
  · exact asks_pure

theorem asks_openChild {ρ : Type} [ProjectChild ρ] {id : String} : Asks (φ.openChild ρ id) := by
  refine asks_sql.bind fun _ => asks_query.bind fun _ => ?_
  exact asks_ensureOptionalProjectActive.bind fun _ => asks_pure

theorem asks_openWorkflow {id : String} {w : WorkflowFields} : Asks (φ.openWorkflow id w) := by
  refine asks_ask.bind fun _ => asks_sql.bind fun _ => ?_
  refine asks_ensureOptionalProjectActive.bind fun _ => ?_
  refine Asks.bind ?_ fun _ => asks_io.bind fun _ => asks_pure
  unfold existingWorkflow
  split_ifs
  · exact asks_pure
  · exact asks_query

end Asked

/-! ### What comes after the files -/

section Rows

variable {α β : Type} {e : Option String}

theorem keeps_execute {f : Store → Except OrchdPersistError Store} :
    Keeps Orchd.files (execute e f) := asks_query.keeps.bind fun _ => fun _ => rfl

theorem fails_sql_bind {k : Unit → Verb β} :
    Fails (sql e >>= k) o ↔ e.isSome ∨ Fails (k ()) o := by
  rw [sql, fails_fault_bind, Option.isSome_map]

theorem fails_sql : Fails (sql e) o ↔ e.isSome := by
  rcases e with _ | m
  · refine iff_of_false ?_ (by simp)
    rintro ⟨e, t, h⟩
    simp [sql, fault, ask] at h
  · exact iff_of_true ⟨.sql m, o, rfl⟩ rfl

theorem fails_io_bind {k : Unit → Verb β} :
    Fails (io e >>= k) o ↔ e.isSome ∨ Fails (k ()) o := by
  rw [io, fails_fault_bind, Option.isSome_map]

theorem fails_query_bind {s : Store} {x : Store → Except OrchdPersistError α} {a : α}
    {k : α → Verb β} (h : x s = .ok a) :
    Fails (query e x >>= k) ⟨s, fs⟩ ↔ e.isSome ∨ Fails (k a) ⟨s, fs⟩ := by
  rcases e with _ | m
  · have hok : query none x ⟨s, fs⟩ = (.ok a, ⟨s, fs⟩) := by
      simp [query, sql, bind_apply, fault, ask, h]
    rw [fails_bind_of_ok hok]
    simp
  · have herr : query (some m) x ⟨s, fs⟩ = (.error (.sql m), ⟨s, fs⟩) := by
      simp [query, sql, bind_apply, fault, ask]
    exact iff_of_true (fails_bind_of_error herr) (.inl rfl)

theorem fails_execute_bind {s t : Store} {f : Store → Except OrchdPersistError Store}
    {k : Unit → Verb β} (h : f s = .ok t) :
    Fails (execute e f >>= k) ⟨s, fs⟩ ↔ e.isSome ∨ Fails (k ()) ⟨t, fs⟩ := by
  rcases e with _ | m
  · have hok : execute none f ⟨s, fs⟩ = (.ok (), ⟨t, fs⟩) := by
      simp [execute, query, sql, bind_apply, fault, ask, h, change]
    rw [fails_bind_of_ok hok]
    simp
  · have herr : execute (some m) f ⟨s, fs⟩ = (.error (.sql m), ⟨s, fs⟩) := by
      simp [execute, query, sql, bind_apply, fault, ask]
    exact iff_of_true (fails_bind_of_error herr) (.inl rfl)

theorem fails_update_bind {s : Store} {g : Store → Store} {k : Unit → Verb β} :
    Fails (execute e (fun s => .ok (g s)) >>= k) ⟨s, fs⟩ ↔
      e.isSome ∨ Fails (k ()) ⟨g s, fs⟩ :=
  fails_execute_bind rfl

theorem fails_execute_of_error {s : Store} {f : Store → Except OrchdPersistError Store}
    {m : OrchdPersistError} {k : Unit → Verb β} (h : f s = .error m) :
    Fails (execute e f >>= k) ⟨s, fs⟩ := by
  rcases e with _ | m'
  · have herr : execute none f ⟨s, fs⟩ = (.error m, ⟨s, fs⟩) := by
      simp [execute, query, sql, bind_apply, fault, ask, h]
    exact fails_bind_of_error herr
  · have herr : execute (some m') f ⟨s, fs⟩ = (.error (.sql m'), ⟨s, fs⟩) := by
      simp [execute, query, sql, bind_apply, fault, ask]
    exact fails_bind_of_error herr

end Rows

end Faults

end BuilderPro
