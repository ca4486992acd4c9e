import BuilderPro.Lib.Attempt
import BuilderPro.Lib.SqlInserts

/-!
# Migrations

`run_migrations` of the daemons' core: the steps a database lacks run in one transaction, with the
change of `user_version`.  Whatever fails, the database is as it was (`migrate_cases`); a chain of
steps that each take one schema to the next takes a database of any version to the current one
(`Chain.opens`), and by way of any versions to what it is taken to at once (`Chain.same_through`).
-/

namespace BuilderPro

open Sql (Database Definition Table)

/-- What happens while a database is opened: which of the statements executed fail, and the ids and
times that are generated by then. -/
structure Machine where
  fault : ℕ → Option String
  newV4 : ℕ → String
  nowMs : ℕ → ℤ

/-- Nothing fails, and no id is generated twice. -/
structure Machine.Works (m : Machine) : Prop where
  fault : ∀ n, m.fault n = none
  newV4 : m.newV4.Injective

/-- A connection, with the number of statements it has executed. -/
structure Connection where
  db : Database
  executed : ℕ

inductive MigrateError
  | versionTooNew (found supported : ℤ)
  | sql (message : String)
  deriving DecidableEq, Repr

abbrev Transaction (α : Type) := Attempt Connection MigrateError α

section Runner

variable (m : Machine)

/-- A statement, with the id and the time that are generated for it. -/
def statement (f : String → ℤ → Database → Except String Database) : Transaction Unit := fun c =>
  match (m.fault c.executed).elim (f (m.newV4 c.executed) (m.nowMs c.executed) c.db) .error with
  | .ok db => (.ok (), ⟨db, c.executed + 1⟩)
  | .error e => (.error (.sql e), ⟨c.db, c.executed + 1⟩)

def query {α : Type} (f : Database → Except String α) : Transaction α := fun c =>
  (((m.fault c.executed).elim (f c.db) .error).mapError .sql, ⟨c.db, c.executed + 1⟩)

/-- `execute_batch`, of statements that define tables. -/
def executeBatch (definitions : List Definition) : Transaction Unit :=
  definitions.forM fun d => statement m fun _ _ db => d.exec db

structure Migration where
  upto : ℤ
  apply : Machine → Transaction Unit

def runMigrations (fromVersion target : ℤ) (steps : List Migration) : Transaction Unit :=
  if fromVersion = target then pure ()
  else if target < fromVersion then .ask fun _ => .error (.versionTooNew fromVersion target)
  else .transact (fun c c' => { c' with db := c.db }) do
    statement m fun _ _ => .ok
    steps.forM fun step => if fromVersion < step.upto then step.apply m else pure ()
    statement m fun _ _ db => .ok (db.setVersion target)
    statement m fun _ _ => .ok

/-- What `open` does with a database once it is open. -/
def migrate (target : ℤ) (steps : List Migration) : Transaction Unit := fun c =>
  runMigrations m c.db.userVersion target steps c

end Runner

/-! ### What a step does -/

/-- The ids and times of the rows a step makes, one after another. -/
abbrev Seeds := ℕ → String × ℤ

/-- What a step does to a database. -/
abbrev Effect := Seeds → Database → Except String Database

/-- A step that does nothing else, and fails only when a statement does. -/
structure Migration.Does (step : Migration) (effect : Effect) : Prop where
  only : ∀ m c c', step.apply m c = (.ok (), c') → ∃ seeds, effect seeds c.db = .ok c'.db
  fails : ∀ m, m.Works → ∀ c, ∃ seeds : Seeds, (Prod.fst ∘ seeds).Injective ∧
    ∀ db, effect seeds c.db = .ok db → ∃ n, step.apply m c = (.ok (), ⟨db, n⟩)

/-- A database with the tables of a schema, which meets their constraints. -/
structure Fits (shape : List Table) (db : Database) : Prop where
  sound : db.Sound
  shape : db.shape = shape

/-- A step with its effect. -/
structure Step extends Migration where
  effect : Effect
  does : toMigration.Does effect

/-- A step that leads from one schema to another. -/
structure Step.Leads (shape shape' : List Table) (step : Step) : Prop where
  fits : ∀ seeds db db', Fits shape db → step.effect seeds db = .ok db' → Fits shape' db'
  succeeds : ∀ seeds : Seeds, (Prod.fst ∘ seeds).Injective → ∀ db, Fits shape db →
    ∃ db', step.effect seeds db = .ok db'

/-- The steps lead from one schema to the next. -/
def Ascends (schema : ℕ → List Table) : ℕ → List Step → Prop
  | _, [] => True
  | n, step :: steps => step.upto = (n + 1 : ℕ) ∧ step.Leads (schema n) (schema (n + 1)) ∧
    Ascends schema (n + 1) steps

/-- The steps of a daemon, and the schemas they lead to. -/
structure Chain where
  steps : List Step
  schema : ℕ → List Table
  ascends : Ascends schema 0 steps

namespace Chain

/-- A database of a version. -/
structure ValidAt (chain : Chain) (version : ℕ) (db : Database) : Prop where
  userVersion : db.userVersion = version
  fits : Fits (chain.schema version) db

/-- The steps of the build whose current version was `k`. -/
def build (chain : Chain) (k : ℕ) : List Migration :=
  (chain.steps.take k).map Step.toMigration

/-- Opened with a build, a database is left as another. -/
def Opens (chain : Chain) (k : ℕ) (db db' : Database) : Prop :=
  ∃ m n n', migrate m k (chain.build k) ⟨db, n⟩ = (.ok (), ⟨db', n'⟩)

/-- The same with some builds, one after another. -/
def OpensThrough (chain : Chain) : List ℕ → Database → Database → Prop
  | [], db, db' => db' = db
  | k :: ks, db, db' => ∃ mid, chain.Opens k db mid ∧ chain.OpensThrough ks mid db'

end Chain

/-- How a database of a version is opened: whatever fails, it is left as it was or upgraded; where
nothing fails, it is upgraded, with the current build or by way of any builds; and by way of these
it becomes what it becomes at once. -/
structure Chain.Carries (chain : Chain) (current : ℕ) (Upgraded : Database → Database → Prop)
    (Same : List Table → List Table → Prop) (version : ℕ) (db : Database) : Prop where
  atomic : ∀ m n r c', migrate m current (chain.build current) ⟨db, n⟩ = (r, c') →
    (∃ e, r = .error e) ∧ c'.db = db ∨ r = .ok () ∧ Upgraded db c'.db
  opens : ∀ m, m.Works → ∀ n, ∃ c',
    migrate m current (chain.build current) ⟨db, n⟩ = (.ok (), c')
  reaches : ∀ ks, (version :: (ks ++ [current])).Pairwise (· ≤ ·) →
    ∃ db', chain.OpensThrough (ks ++ [current]) db db'
  same : ∀ ks d₁ d₂, chain.OpensThrough (ks ++ [current]) db d₁ → chain.Opens current db d₂ →
    Same d₁.tables d₂.tables ∧ d₁.userVersion = d₂.userVersion
  unchanged : version = current → ∀ m n,
    migrate m current (chain.build current) ⟨db, n⟩ = (.ok (), ⟨db, n⟩)

/-- A database after some effects. -/
def Upgrade : List Effect → Database → Database → Prop
  | [], db, db' => db' = db
  | effect :: effects, db, db' =>
    ∃ seeds mid, effect seeds db = .ok mid ∧ Upgrade effects mid db'

/-! ### Runs of the runner -/

variable {m : Machine} {c c' : Connection} {db db' mid : Database} {steps : List Step}
  {effects effects' : List Effect} {schema : ℕ → List Table} {n k v : ℕ} {step : Step}

theorem forM_cons {α : Type} {f : α → Transaction Unit} {a : α} {l : List α} :
    (a :: l).forM f = f a >>= fun _ => l.forM f := rfl

theorem statement_eq_ok {f : String → ℤ → Database → Except String Database} {u : Unit} :
    statement m f c = (.ok u, c') ↔ m.fault c.executed = none ∧
      f (m.newV4 c.executed) (m.nowMs c.executed) c.db = .ok c'.db ∧
        c'.executed = c.executed + 1 := by
  unfold statement
  obtain ⟨db', executed'⟩ := c'
  rcases m.fault c.executed with _ | e
  · rcases f (m.newV4 c.executed) (m.nowMs c.executed) c.db with e | db
    · simp
    · simp [eq_comm]
  · simp

theorem executeBatch_eq_ok {definitions : List Definition} {u : Unit}
    (h : executeBatch m definitions c = (.ok u, c')) :
    Sql.execAll definitions c.db = .ok c'.db := by
  induction definitions generalizing c with
  | nil =>
    obtain ⟨-, rfl⟩ := Prod.mk.inj h
    rfl
  | cons d l ih =>
    rw [executeBatch, forM_cons, Attempt.bind_eq_ok] at h
    obtain ⟨_, c₁, hd, hl⟩ := h
    obtain ⟨-, hexec, -⟩ := statement_eq_ok.1 hd
    rw [Sql.execAll, List.foldlM_cons, hexec]
    exact ih hl

theorem executeBatch_of_works (hm : m.Works) {definitions : List Definition}
    (h : Sql.execAll definitions c.db = .ok db) :
    executeBatch m definitions c = (.ok (), ⟨db, c.executed + definitions.length⟩) := by
  induction definitions generalizing c with
  | nil =>
    obtain rfl := Except.ok.inj h
    rfl
  | cons d l ih =>
    rw [Sql.execAll, List.foldlM_cons] at h
    rcases hd : d.exec c.db with e | mid <;> rw [hd] at h
    · simp [Bind.bind, Except.bind] at h
    · have hstatement : statement m (fun _ _ db => d.exec db) c =
          (.ok (), ⟨mid, c.executed + 1⟩) := statement_eq_ok.2 ⟨hm.fault _, hd, rfl⟩
      have hl := @ih ⟨mid, c.executed + 1⟩ h
      rw [show c.executed + 1 + l.length = c.executed + (d :: l).length by
        rw [List.length_cons]; omega] at hl
      rw [executeBatch, forM_cons, Attempt.bind_of_ok hstatement]
      exact hl

/-- The steps that are run, of those a build has. -/
theorem forM_eq_upgrade {u : Unit} {version : ℤ}
    (h : (steps.map Step.toMigration).forM
      (fun step => if version < step.upto then step.apply m else pure ()) c = (.ok u, c')) :
    Upgrade ((steps.filter fun step => version < step.upto).map Step.effect) c.db c'.db := by
  induction steps generalizing c with
  | nil =>
    obtain ⟨-, rfl⟩ := Prod.mk.inj h
    rfl
  | cons step l ih =>
    rw [List.map_cons, forM_cons, Attempt.bind_eq_ok] at h
    obtain ⟨_, c₁, hstep, hl⟩ := h
    rw [List.filter_cons]
    by_cases hrun : version < step.upto
    · rw [if_pos hrun] at hstep
      rw [if_pos (by simpa using hrun), List.map_cons]
      obtain ⟨seeds, heffect⟩ := step.does.only m c c₁ hstep
      exact ⟨seeds, c₁.db, heffect, ih hl⟩
    · rw [if_neg hrun] at hstep
      obtain ⟨-, rfl⟩ := Attempt.pure_eq_ok.1 hstep
      rw [if_neg (by simpa using hrun)]
      exact ih hl

/-- Opening a database of the build's version does nothing; of an earlier one, runs what it lacks;
and where it fails the database is as it was. -/
theorem migrate_cases {target : ℤ} {r : Except MigrateError Unit}
    (h : migrate m target (steps.map Step.toMigration) c = (r, c')) :
    (∃ e, r = .error e) ∧ c'.db = c.db ∨
    r = .ok () ∧ c.db.userVersion = target ∧ c' = c ∨
    r = .ok () ∧ c.db.userVersion < target ∧ ∃ db,
      Upgrade ((steps.filter fun step => c.db.userVersion < step.upto).map Step.effect) c.db db ∧
        c'.db = db.setVersion target := by
  unfold migrate runMigrations at h
  split_ifs at h with hcurrent hnewer
  · obtain ⟨rfl, rfl⟩ := Prod.mk.inj h
    exact .inr (.inl ⟨rfl, hcurrent, rfl⟩)
  · obtain ⟨rfl, rfl⟩ := Prod.mk.inj h
    exact .inl ⟨⟨_, rfl⟩, rfl⟩
  · rcases r with e | u
    · refine .inl ⟨⟨e, rfl⟩, ?_⟩
      unfold Attempt.transact at h
      split at h
      · simp at h
      · obtain ⟨-, rfl⟩ := Prod.mk.inj h
        rfl
    · rw [Attempt.transact_eq_ok, Attempt.bind_eq_ok] at h
      obtain ⟨_, c₁, hbegin, h⟩ := h
      rw [Attempt.bind_eq_ok] at h
      obtain ⟨_, c₂, hsteps, h⟩ := h
      rw [Attempt.bind_eq_ok] at h
      obtain ⟨_, c₃, hversion, hcommit⟩ := h
      obtain ⟨-, hdb₁, -⟩ := statement_eq_ok.1 hbegin
      obtain ⟨-, hdb₃, -⟩ := statement_eq_ok.1 hversion
      obtain ⟨-, hdb', -⟩ := statement_eq_ok.1 hcommit
      have hupgrade := forM_eq_upgrade hsteps
      rw [← Except.ok.inj hdb₁] at hupgrade
      refine .inr (.inr ⟨rfl, by omega, c₂.db, hupgrade, ?_⟩)
      rw [← Except.ok.inj hdb', ← Except.ok.inj hdb₃]

/-! ### Effects, one after another -/

theorem upgrade_append : Upgrade (effects ++ effects') db db' ↔
    ∃ mid, Upgrade effects db mid ∧ Upgrade effects' mid db' := by
  induction effects generalizing db with
  | nil => simp [Upgrade]
  | cons effect effects ih =>
    simp only [List.cons_append, Upgrade, ih]
    constructor
    · rintro ⟨seeds, mid, heffect, mid', h, h'⟩
      exact ⟨mid', ⟨seeds, mid, heffect, h⟩, h'⟩
    · rintro ⟨mid', ⟨seeds, mid, heffect, h⟩, h'⟩
      exact ⟨seeds, mid, heffect, mid', h, h'⟩

/-- An effect that takes like tables to like tables. -/
def Effect.Respects (R : List Table → List Table → Prop) (effect : Effect) : Prop :=
  ∀ seeds seeds' db db' mid mid', R db.tables db'.tables → effect seeds db = .ok mid →
    effect seeds' db' = .ok mid' → R mid.tables mid'.tables

theorem Upgrade.same {R : List Table → List Table → Prop} {other other' : Database}
    (hR : ∀ effect ∈ effects, Effect.Respects R effect) (h : Upgrade effects db db')
    (h' : Upgrade effects other other') (hsame : R db.tables other.tables) :
    R db'.tables other'.tables := by
  induction effects generalizing db other with
  | nil =>
    obtain rfl : db' = db := h
    obtain rfl : other' = other := h'
    exact hsame
  | cons effect effects ih =>
    obtain ⟨seeds, mid, heffect, h⟩ := h
    obtain ⟨seeds', mid', heffect', h'⟩ := h'
    refine ih (fun F hF => hR F (by simp [hF])) h h' ?_
    exact hR effect (by simp) seeds seeds' db other mid mid' hsame heffect heffect'

/-! ### Steps that define tables -/

/-- An effect that does not depend on the ids and times, nor on the version. -/
theorem respects_eq {effect : Effect} (hseeds : ∀ seeds seeds', effect seeds = effect seeds')
    (hversion : ∀ seeds db (version : ℤ), effect seeds (db.setVersion version) =
      (effect seeds db).map fun db => db.setVersion version) : effect.Respects Eq := by
  intro seeds seeds' db db' mid mid' hsame h h'
  have hdb' : db' = db.setVersion db'.userVersion := by
    rw [Database.setVersion, hsame]
  rw [hdb', hversion, hseeds seeds' seeds, h] at h'
  rw [← Except.ok.inj h']
  rfl

/-- A step that only defines tables. -/
def Migration.define (upto : ℤ) (definitions : List Definition) : Migration :=
  ⟨upto, fun m => executeBatch m definitions⟩

/-- The same, with its effect. -/
def Step.define (upto : ℤ) (definitions : List Definition) : Step where
  toMigration := .define upto definitions
  effect _ db := Sql.execAll definitions db
  does :=
    { only := fun m c c' h => ⟨fun _ => ("", 0), executeBatch_eq_ok h⟩
      fails := fun m hm c => by
        refine ⟨fun n => (m.newV4 n, 0), hm.newV4, fun db h => ?_⟩
        exact ⟨_, executeBatch_of_works hm h⟩ }

theorem respects_define {upto : ℤ} {definitions : List Definition} :
    (Step.define upto definitions).effect.Respects Eq :=
  respects_eq (fun _ _ => rfl) fun _ _ _ => Sql.execAll_setVersion

theorem unread_shape {d : Definition} : d.Unread db.shape ↔ d.Unread db.tables := by
  rcases d with _ | _ | ⟨table, column, checks⟩
  · exact Iff.rfl
  · exact Iff.rfl
  · simp [Definition.Unread, Database.shape]

variable {d : Definition} {definitions : List Definition} {shape shape' : List Table}

theorem Fits.exec (hdb : Fits shape db) (hfill : d.Fillable) (hread : d.Unread shape)
    (h : d.exec ⟨shape, 0⟩ = .ok ⟨shape', 0⟩) : ∃ db', d.exec db = .ok db' ∧ Fits shape' db' := by
  obtain ⟨hsound, rfl⟩ := hdb
  obtain ⟨db', hexec, hshape⟩ := Definition.exec_ok hfill h
  exact ⟨db', hexec, Definition.exec_sound hsound (unread_shape.1 hread) hexec, hshape⟩

/-- Definitions that lead from one schema to another, each on its own. -/
inductive Defines : List Definition → List Table → List Table → Prop
  | nil (shape : List Table) : Defines [] shape shape
  | cons {shape mid shape' : List Table} (d : Definition) (definitions : List Definition)
      (hfill : d.Fillable) (hread : d.Unread shape) (hexec : d.exec ⟨shape, 0⟩ = .ok ⟨mid, 0⟩)
      (hrest : Defines definitions mid shape') : Defines (d :: definitions) shape shape'

theorem Fits.execAll (h : Defines definitions shape shape') (hdb : Fits shape db) :
    ∃ db', Sql.execAll definitions db = .ok db' ∧ Fits shape' db' := by
  induction h generalizing db with
  | nil shape => exact ⟨db, rfl, hdb⟩
  | cons d definitions hfill hread hexec _ ih =>
    obtain ⟨mid, hmid, hfits⟩ := hdb.exec hfill hread hexec
    obtain ⟨db', hrest, hfits'⟩ := ih hfits
    refine ⟨db', ?_, hfits'⟩
    rw [Sql.execAll, List.foldlM_cons, hmid]
    exact hrest

theorem leads_define {upto : ℤ} (h : Defines definitions shape shape') :
    (Step.define upto definitions).Leads shape shape' where
  fits _ db db' hdb hexec := by
    obtain ⟨db'', hexec', hfits⟩ := Fits.execAll h hdb
    obtain rfl : db' = db'' := Except.ok.inj (hexec.symm.trans hexec')
    exact hfits
  succeeds _ _ db hdb := by
    obtain ⟨db', hexec, -⟩ := Fits.execAll h hdb
    exact ⟨db', hexec⟩

theorem Fits.find (hdb : Fits shape db) {t : Table} (ht : t ∈ shape) :
    ∃ rows, db.find t.name = some { t with rows := rows } := by
  obtain ⟨hsound, rfl⟩ := hdb
  exact Database.find_of_shape hsound.nodup ht

theorem Fits.names (hdb : Fits shape db) : db.names = shape.map Table.name := by
  rw [Database.names_eq_shape, hdb.shape]

/-- A table that has no columns added has the rows it had. -/
theorem Fits.rowsOf_eq (hdb : Fits shape db) (hdb' : Fits shape' db') (hkept : Sql.Kept db db')
    {t : Table} (ht : t ∈ shape) (ht' : t ∈ shape') : db'.rowsOf t.name = db.rowsOf t.name := by
  obtain ⟨rows, hfind⟩ := hdb.find ht
  obtain ⟨rows', hfind'⟩ := hdb'.find ht'
  obtain ⟨u, hu, hgrown⟩ := hkept.tables _ trivial _ hfind
  obtain rfl := Option.some.inj (hfind'.symm.trans hu)
  rw [Database.rowsOf_of_find hfind, Database.rowsOf_of_find hfind']
  exact hgrown.rows_eq rfl

/-- What each effect keeps, they keep one after another. -/
theorem Upgrade.kept {among : String → Prop} (h : Upgrade effects db db')
    (hkept : ∀ effect ∈ effects, ∀ seeds db db', effect seeds db = .ok db' →
      Sql.KeptAmong among db db') : Sql.KeptAmong among db db' := by
  induction effects generalizing db with
  | nil =>
    obtain rfl : db' = db := h
    exact .refl db'
  | cons effect effects ih =>
    obtain ⟨seeds, mid, heffect, h⟩ := h
    exact (hkept effect (by simp) seeds db mid heffect).trans
      (ih h fun F hF => hkept F (by simp [hF]))

/-! ### Chains -/

theorem Ascends.lt_upto (h : Ascends schema n steps) (hstep : step ∈ steps) :
    (n : ℤ) < step.upto := by
  induction steps generalizing n with
  | nil => simp at hstep
  | cons first l ih =>
    obtain ⟨hupto, -, hl⟩ := h
    rcases List.mem_cons.1 hstep with rfl | hstep
    · omega
    · have hlt := ih hl hstep
      omega

theorem Ascends.upto_le (h : Ascends schema n steps) (hstep : step ∈ steps) :
    step.upto ≤ (n + steps.length : ℕ) := by
  induction steps generalizing n with
  | nil => simp at hstep
  | cons first l ih =>
    obtain ⟨hupto, -, hl⟩ := h
    rw [List.length_cons]
    rcases List.mem_cons.1 hstep with rfl | hstep
    · omega
    · have hle := ih hl hstep
      omega

theorem Ascends.take (h : Ascends schema n steps) (k : ℕ) : Ascends schema n (steps.take k) := by
  induction steps generalizing n k with
  | nil =>
    rw [List.take_nil]
    trivial
  | cons first l ih =>
    rcases k with _ | k
    · trivial
    · exact ⟨h.1, h.2.1, ih h.2.2 k⟩

theorem Ascends.drop (h : Ascends schema n steps) (k : ℕ) :
    Ascends schema (n + k) (steps.drop k) := by
  induction steps generalizing n k with
  | nil =>
    rw [List.drop_nil]
    trivial
  | cons first l ih =>
    rcases k with _ | k
    · exact h
    · have hrest := ih h.2.2 k
      rw [show n + 1 + k = n + (k + 1) by omega] at hrest
      exact hrest

/-- The steps past a version. -/
theorem Ascends.filter (h : Ascends schema n steps) (k : ℕ) :
    steps.filter (fun step => ((n + k : ℕ) : ℤ) < step.upto) = steps.drop k := by
  induction steps generalizing n k with
  | nil => simp
  | cons first l ih =>
    rcases k with _ | k
    · rw [List.drop_zero, List.filter_eq_self]
      intro step hstep
      simpa using h.lt_upto hstep
    · have hfirst : ¬((n + (k + 1) : ℕ) : ℤ) < first.upto := by
        rw [h.1]
        omega
      rw [List.filter_cons, if_neg (by simpa using hfirst), List.drop_succ_cons,
        ← ih h.2.2 k, show n + 1 + k = n + (k + 1) by omega]

theorem Ascends.fits (h : Ascends schema n steps) (hdb : Fits (schema n) db)
    (hup : Upgrade (steps.map Step.effect) db db') : Fits (schema (n + steps.length)) db' := by
  induction steps generalizing n db with
  | nil =>
    obtain rfl : db' = db := hup
    exact hdb
  | cons step l ih =>
    obtain ⟨seeds, mid, heffect, hup⟩ := hup
    have hrest := ih h.2.2 (h.2.1.fits seeds db mid hdb heffect) hup
    rw [List.length_cons, show n + (l.length + 1) = n + 1 + l.length by omega]
    exact hrest

/-- Where nothing fails, the steps past a version are run. -/
theorem Ascends.forM_of_works (hm : m.Works) {version : ℤ} (h : Ascends schema n steps)
    (hversion : version ≤ n) (hdb : Fits (schema n) c.db) :
    ∃ db' k, (steps.map Step.toMigration).forM
      (fun step => if version < step.upto then step.apply m else pure ()) c =
        (.ok (), ⟨db', k⟩) := by
  induction steps generalizing n c with
  | nil => exact ⟨c.db, c.executed, rfl⟩
  | cons step l ih =>
    obtain ⟨seeds, hseeds, hdone⟩ := step.does.fails m hm c
    obtain ⟨mid, hmid⟩ := h.2.1.succeeds seeds hseeds c.db hdb
    obtain ⟨k, hstep⟩ := hdone mid hmid
    have hrun : version < step.upto := by
      rw [h.1]
      omega
    obtain ⟨db', k', hl⟩ := @ih ⟨mid, k⟩ (n + 1) h.2.2 (by omega)
      (h.2.1.fits seeds c.db mid hdb hmid)
    refine ⟨db', k', ?_⟩
    rw [List.map_cons, forM_cons, if_pos hrun, Attempt.bind_of_ok hstep]
    exact hl

theorem forM_skip {version : ℤ} {l l' : List Step} (hl : ∀ step ∈ l, step.upto ≤ version) :
    ((l ++ l').map Step.toMigration).forM
      (fun step => if version < step.upto then step.apply m else pure ()) c =
    (l'.map Step.toMigration).forM
      (fun step => if version < step.upto then step.apply m else pure ()) c := by
  induction l with
  | nil => rfl
  | cons step l ih =>
    have hskip : ¬version < step.upto := by
      have hle := hl step (by simp)
      omega
    rw [List.cons_append, List.map_cons, forM_cons, if_neg hskip,
      Attempt.bind_of_ok (Attempt.pure_eq_ok.2 ⟨rfl, rfl⟩)]
    exact ih fun step' hstep' => hl step' (by simp [hstep'])

namespace Chain

variable {chain : Chain} {d d₁ d₂ : Database} {ks : List ℕ}

theorem drop_take {v k t : ℕ} (hv : v ≤ k) (hk : k ≤ t) (l : List Step) :
    (l.take t).drop v = (l.take k).drop v ++ (l.take t).drop k := by
  have hsplit : l.take t = l.take k ++ (l.take t).drop k := by
    have h := (List.take_append_drop k (l.take t)).symm
    rwa [List.take_take, Nat.min_eq_left hk] at h
  have hrest : ((l.take t).drop k).drop (v - (l.take k).length) = (l.take t).drop k := by
    rw [List.length_take]
    by_cases hlen : k ≤ l.length
    · rw [Nat.min_eq_left hlen, Nat.sub_eq_zero_of_le hv, List.drop_zero]
    · have hnil : (l.take t).drop k = [] := by
        rw [List.drop_eq_nil_iff, List.length_take]
        omega
      rw [hnil, List.drop_nil]
  conv_lhs => rw [hsplit]
  rw [List.drop_append, hrest]

/-- The steps a build runs on a database of a version. -/
theorem filter_build (chain : Chain) {v k : ℕ} :
    (chain.steps.take k).filter (fun step => (v : ℤ) < step.upto) =
      (chain.steps.take k).drop v := by
  have h := (chain.ascends.take k).filter v
  rwa [Nat.zero_add] at h

theorem Opens.cases (h : chain.Opens k db db') :
    db.userVersion = k ∧ db' = db ∨ db.userVersion < k ∧ ∃ d, db' = d.setVersion k ∧
      Upgrade (((chain.steps.take k).filter fun step => db.userVersion < step.upto).map
        Step.effect) db d := by
  obtain ⟨m, n, n', hopen⟩ := h
  obtain ⟨⟨e, hr⟩, -⟩ | ⟨-, hversion, hc⟩ | ⟨-, hversion, d, hup, hd⟩ := migrate_cases hopen
  · simp at hr
  · exact .inl ⟨hversion, congrArg Connection.db hc⟩
  · exact .inr ⟨hversion, d, hd, hup⟩

theorem Opens.version_le (h : chain.Opens k db db') : db.userVersion ≤ k := by
  obtain ⟨hversion, -⟩ | ⟨hversion, -⟩ := h.cases <;> omega

theorem Opens.version_eq (h : chain.Opens k db db') : db'.userVersion = k := by
  obtain ⟨hversion, rfl⟩ | ⟨-, d, rfl, -⟩ := h.cases
  · exact hversion
  · rfl

theorem OpensThrough.version_eq (h : chain.OpensThrough (ks ++ [k]) db db') :
    db'.userVersion = k := by
  induction ks generalizing db with
  | nil =>
    obtain ⟨mid, hopen, hlast⟩ := h
    obtain rfl : db' = mid := hlast
    exact hopen.version_eq
  | cons k' ks ih =>
    obtain ⟨mid, -, h⟩ := h
    exact ih h

theorem OpensThrough.version_le (h : chain.OpensThrough (ks ++ [k]) db db') :
    db.userVersion ≤ k := by
  induction ks generalizing db with
  | nil =>
    obtain ⟨mid, hopen, -⟩ := h
    exact hopen.version_le
  | cons k' ks ih =>
    obtain ⟨mid, hopen, h⟩ := h
    have hle := ih h
    rw [hopen.version_eq] at hle
    exact hopen.version_le.trans hle

/-- A database is kept valid, whatever the build it is opened with. -/
theorem Opens.validAt (h : chain.Opens k db db') (hdb : chain.ValidAt v db)
    (hk : k ≤ chain.steps.length) : chain.ValidAt k db' := by
  refine ⟨h.version_eq, ?_⟩
  obtain ⟨hversion, rfl⟩ | ⟨hversion, d, rfl, hup⟩ := h.cases
  · obtain rfl : v = k := by
      have hv := hdb.userVersion
      omega
    exact hdb.fits
  · rw [hdb.userVersion] at hversion hup
    rw [filter_build] at hup
    have hlen : ((chain.steps.take k).drop v).length = k - v := by
      rw [List.length_drop, List.length_take, Nat.min_eq_left hk]
    have hasc := (chain.ascends.take k).drop v
    rw [Nat.zero_add] at hasc
    have hfits := hasc.fits hdb.fits hup
    rw [hlen, show v + (k - v) = k by omega] at hfits
    exact ⟨hfits.sound.setVersion k, hfits.shape⟩

/-- Where nothing fails, a database is opened with any build that is not older. -/
theorem opens (hm : m.Works) (hdb : chain.ValidAt v db) (hv : v ≤ k) (n : ℕ) :
    ∃ db' n', migrate m k (chain.build k) ⟨db, n⟩ = (.ok (), ⟨db', n'⟩) := by
  unfold migrate runMigrations
  simp only [hdb.userVersion]
  by_cases hcurrent : (v : ℤ) = k
  · rw [if_pos hcurrent]
    exact ⟨db, n, rfl⟩
  · have hasc := (chain.ascends.take k).drop v
    rw [Nat.zero_add] at hasc
    have hbegin : statement m (fun _ _ => .ok) ⟨db, n⟩ = (.ok (), ⟨db, n + 1⟩) :=
      statement_eq_ok.2 ⟨hm.fault n, rfl, rfl⟩
    obtain ⟨d, n', hsteps⟩ := hasc.forM_of_works (c := ⟨db, n + 1⟩) hm le_rfl hdb.fits
    have hskip : ∀ step ∈ (chain.steps.take k).take v, step.upto ≤ (v : ℤ) := by
      intro step hstep
      have hle := ((chain.ascends.take k).take v).upto_le hstep
      have hlen := List.length_take_le v (chain.steps.take k)
      omega
    rw [← forM_skip hskip, List.take_append_drop] at hsteps
    have hversion : statement m (fun _ _ db => .ok (db.setVersion k)) ⟨d, n'⟩ =
        (.ok (), ⟨d.setVersion k, n' + 1⟩) := statement_eq_ok.2 ⟨hm.fault n', rfl, rfl⟩
    have hcommit : statement m (fun _ _ => .ok) ⟨d.setVersion k, n' + 1⟩ =
        (.ok (), ⟨d.setVersion k, n' + 2⟩) := statement_eq_ok.2 ⟨hm.fault _, rfl, rfl⟩
    refine ⟨d.setVersion k, n' + 2, ?_⟩
    rw [if_neg hcurrent, if_neg (by omega), Attempt.transact_eq_ok, Attempt.bind_of_ok hbegin,
      build, Attempt.bind_of_ok hsteps, Attempt.bind_of_ok hversion]
    exact hcommit

theorem respects_build {R : List Table → List Table → Prop}
    (hR : ∀ step ∈ chain.steps.drop v, step.effect.Respects R) :
    ∀ effect ∈ ((chain.steps.take k).drop v).map Step.effect, Effect.Respects R effect := by
  intro effect heffect
  obtain ⟨step, hstep, rfl⟩ := List.mem_map.1 heffect
  exact hR step (((List.take_sublist k chain.steps).drop v).subset hstep)

/-- By way of any builds a database becomes what it becomes at once. -/
theorem same_through {R : List Table → List Table → Prop} {other : Database}
    (hR : ∀ step ∈ chain.steps.drop v, step.effect.Respects R) (hv : db.userVersion = v)
    (hsame : R db.tables other.tables) (h : chain.OpensThrough (ks ++ [k]) db d₁)
    (hup : Upgrade (((chain.steps.take k).drop v).map Step.effect) other d₂) :
    R d₁.tables d₂.tables := by
  induction ks generalizing db v other with
  | nil =>
    obtain ⟨mid, hopen, hlast⟩ := h
    obtain rfl : d₁ = mid := hlast
    obtain ⟨hversion, rfl⟩ | ⟨hversion, d, rfl, hup'⟩ := hopen.cases
    · have hnil : (chain.steps.take k).drop v = [] := by
        rw [List.drop_eq_nil_iff, List.length_take]
        omega
      rw [hnil] at hup
      obtain rfl : d₂ = other := hup
      exact hsame
    · rw [hv, filter_build] at hup'
      have hend := hup'.same (respects_build hR) hup hsame
      exact hend
  | cons k' ks ih =>
    obtain ⟨mid, hopen, h⟩ := h
    have hk := h.version_le
    rw [hopen.version_eq] at hk
    obtain ⟨hversion, rfl⟩ | ⟨hversion, d, rfl, hup'⟩ := hopen.cases
    · exact ih hR hv hsame h hup
    · rw [hv] at hversion
      rw [hv, filter_build] at hup'
      rw [drop_take (show v ≤ k' by omega) (by omega), List.map_append, upgrade_append] at hup
      obtain ⟨other', hfirst, hrest⟩ := hup
      have hend := hup'.same (respects_build hR) hfirst hsame
      have hmid : R (d.setVersion k').tables other'.tables := hend
      have hdrop : chain.steps.drop k' = (chain.steps.drop v).drop (k' - v) := by
        rw [List.drop_drop, show v + (k' - v) = k' by omega]
      exact ih (fun step hstep => hR step (List.mem_of_mem_drop (hdrop ▸ hstep))) rfl hmid h hrest

/-- A machine on which nothing fails. -/
def working : Machine := ⟨fun _ => none, fun n => String.ofList (List.replicate n 'a'), fun _ => 0⟩

theorem works_working : working.Works := by
  refine ⟨fun _ => rfl, fun n n' h => ?_⟩
  have hlength := congrArg String.length h
  simpa [working] using hlength

theorem opensThrough (hdb : chain.ValidAt v db) (hks : (v :: ks).Pairwise (· ≤ ·))
    (hlast : ∀ k ∈ ks, k ≤ chain.steps.length) : ∃ db', chain.OpensThrough ks db db' := by
  induction ks generalizing v db with
  | nil => exact ⟨db, rfl⟩
  | cons k ks ih =>
    obtain ⟨hv, hrest⟩ := List.pairwise_cons.1 hks
    obtain ⟨mid, n', hopen⟩ := chain.opens works_working hdb (hv k (by simp)) 0
    have hopens : chain.Opens k db mid := ⟨_, _, _, hopen⟩
    obtain ⟨db', h⟩ := ih (hopens.validAt hdb (hlast k (by simp))) hrest
      fun k' hk' => hlast k' (by simp [hk'])
    exact ⟨db', mid, hopens, h⟩

theorem migrate_current (hdb : chain.ValidAt k db) (m : Machine) (n : ℕ) :
    migrate m k (chain.build k) ⟨db, n⟩ = (.ok (), ⟨db, n⟩) := by
  unfold migrate runMigrations
  rw [if_pos hdb.userVersion]
  rfl

/-- What is left to show of a chain: what the upgrade of a database of an earlier version is. -/
theorem carries {Upgraded : Database → Database → Prop} {R : List Table → List Table → Prop}
    (hdb : chain.ValidAt v db) (hv : v ≤ chain.steps.length)
    (hR : ∀ step ∈ chain.steps.drop v, step.effect.Respects R) (hrefl : ∀ l, R l l)
    (hself : v = chain.steps.length → Upgraded db db)
    (hup : ∀ db', chain.ValidAt chain.steps.length db' →
      ∀ d, db' = d.setVersion chain.steps.length →
        Upgrade ((chain.steps.drop v).map Step.effect) db d → Upgraded db db') :
    chain.Carries chain.steps.length Upgraded R v db := by
  have hbuild : chain.build chain.steps.length = chain.steps.map Step.toMigration := by
    rw [build, List.take_length]
  have hfilter : chain.steps.filter (fun step => (v : ℤ) < step.upto) = chain.steps.drop v := by
    have h := chain.filter_build (v := v) (k := chain.steps.length)
    rwa [List.take_length] at h
  have hupgraded {d₂ : Database} (h : chain.Opens chain.steps.length db d₂) :
      Upgraded db d₂ := by
    have hvalid := h.validAt hdb le_rfl
    obtain ⟨hversion, rfl⟩ | ⟨hversion, d, rfl, hd⟩ := h.cases
    · refine hself ?_
      have hversion' := hdb.userVersion
      omega
    · rw [hdb.userVersion, List.take_length, hfilter] at hd
      exact hup _ hvalid d rfl hd
  refine ⟨fun m n r c' h => ?_, fun m hm n => ?_, fun ks hks => ?_, fun ks d₁ d₂ h h' => ?_,
    fun hcurrent m n => ?_⟩
  · rw [hbuild] at h
    obtain ⟨he, hc⟩ | ⟨rfl, -, rfl⟩ | ⟨rfl, -, -⟩ := migrate_cases h
    · exact .inl ⟨he, hc⟩
    · exact .inr ⟨rfl, hupgraded ⟨m, n, n, by rw [hbuild]; exact h⟩⟩
    · exact .inr ⟨rfl, hupgraded ⟨m, n, c'.executed, by rw [hbuild]; exact h⟩⟩
  · obtain ⟨db', n', h⟩ := chain.opens hm hdb hv n
    exact ⟨_, h⟩
  · refine opensThrough hdb hks fun k hk => ?_
    rcases List.mem_append.1 hk with hk | hk
    · have hlast := List.pairwise_append.1 (List.pairwise_cons.1 hks).2
      exact hlast.2.2 k hk _ (by simp)
    · rw [List.mem_singleton.1 hk]
  · refine ⟨?_, h.version_eq.trans h'.version_eq.symm⟩
    obtain ⟨hversion, rfl⟩ | ⟨hversion, d, rfl, hd⟩ := h'.cases
    · have hnil : (chain.steps.take chain.steps.length).drop v = [] := by
        rw [List.drop_eq_nil_iff, List.take_length]
        have hversion' := hdb.userVersion
        omega
      have hdone : Upgrade (((chain.steps.take chain.steps.length).drop v).map Step.effect)
          d₂ d₂ := by
        rw [hnil]
        rfl
      exact same_through hR hdb.userVersion (hrefl _) h hdone
    · rw [hdb.userVersion, filter_build] at hd
      have hsame := same_through hR hdb.userVersion (hrefl _) h hd
      exact hsame
  · rw [← hcurrent]
    exact migrate_current hdb m n

end Chain

end BuilderPro
