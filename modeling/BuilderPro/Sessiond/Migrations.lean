import BuilderPro.DaemonCore.Migrations

/-!
# The migrations of the session daemon

The steps of `persistence.rs`, from an empty database to version 3.  An `id` is not null: SQLite
does not ask it of a `TEXT PRIMARY KEY`, but the daemon binds a `String` to each.
-/

namespace BuilderPro

open Sql (Database Definition Table Column Value)

namespace SessiondSchema

def schemaVersion : ℕ := 3

def workspaceTable : Table where
  name := "workspace"
  columns := [.ofText "id", .ofText "name", .ofText "root_path"]
  constraints := [.unique ["id"] none]
  rows := []

def sessionTable : Table where
  name := "session"
  columns := [.ofText "id", .ofText "workspace_id", .ofText "title", .ofText "shell", .ofText "cwd",
    .ofInteger "cols", .ofInteger "rows", .ofText "lifecycle", .ofIntegerOrNull "exit_code",
    .ofTextOrNull "exit_signal", .ofInteger "created_at"]
  constraints := [.unique ["id"] none, .references "workspace_id" "workspace" "id"]
  rows := []

def scrollbackTable : Table where
  name := "scrollback"
  columns := [.ofText "session_id", .ofInteger "seq", ⟨"bytes", .blob, true, .null⟩,
    .ofInteger "ts"]
  constraints := [.unique ["session_id", "seq"] none, .references "session_id" "session" "id"]
  rows := []

def commandEventsTable : Table where
  name := "command_events"
  columns := [.ofText "session_id", .ofInteger "seq", .ofInteger "ts", .ofText "kind",
    .ofIntegerOrNull "exit_code", .ofTextOr "origin" "gui"]
  constraints := [.unique ["session_id", "seq"] none, .references "session_id" "session" "id"]
  rows := []

def workspaceRootTable : Table where
  name := "workspace_root"
  columns := [.ofText "workspace_id", .ofInteger "ord", .ofText "path"]
  constraints := [.unique ["workspace_id", "ord"] none,
    .references "workspace_id" "workspace" "id"]
  rows := []

def migrateV1 : List Definition :=
  [.createTable true workspaceTable, .createTable true sessionTable,
    .createTable true scrollbackTable]

def migrateV2 : List Definition := [.createTable true commandEventsTable]

def rootOf (workspace : Sql.Row) : Sql.Row :=
  Sql.rowOf [("workspace_id", workspace "id"), ("ord", .integer 0), ("path", workspace "root_path")]

/-- The `SELECT` of the backfill. -/
def rootsToAdd (db : Database) : List Sql.Row :=
  ((db.rowsOf "workspace").filter fun workspace => ¬∃ w ∈ db.rowsOf "workspace_root",
    w "workspace_id" = workspace "id" ∧ w "ord" = .integer 0).map rootOf

def migrateV3 (m : Machine) : Transaction Unit := do
  executeBatch m [.createTable true workspaceRootTable]
  statement m fun _ _ db => Sql.insertAll "workspace_root" (rootsToAdd db) db

def schema : ℕ → List Table
  | 0 => []
  | 1 => [workspaceTable, sessionTable, scrollbackTable]
  | 2 => [workspaceTable, sessionTable, scrollbackTable, commandEventsTable]
  | _ => [workspaceTable, sessionTable, scrollbackTable, commandEventsTable, workspaceRootTable]

theorem defines_v1 : Defines migrateV1 (schema 0) (schema 1) :=
  .cons _ _ trivial trivial rfl (.cons _ _ trivial trivial rfl
    (.cons _ _ trivial trivial rfl (.nil _)))

theorem defines_v2 : Defines migrateV2 (schema 1) (schema 2) :=
  .cons _ _ trivial trivial rfl (.nil _)

theorem defines_v3 : Defines [.createTable true workspaceRootTable] (schema 2) (schema 3) :=
  .cons _ _ trivial trivial rfl (.nil _)

/-! ### The backfill -/

variable {m : Machine} {c c' : Connection} {db db' mid : Database}

def addRoots (db : Database) : Except String Database := do
  let db ← Sql.execAll [.createTable true workspaceRootTable] db
  Sql.insertAll "workspace_root" (rootsToAdd db) db

theorem does_migrateV3 : Migration.Does ⟨3, migrateV3⟩ fun _ db => addRoots db where
  only m c c' h := by
    refine ⟨fun _ => ("", 0), ?_⟩
    obtain ⟨_, c₁, hcreate, hinsert⟩ := Attempt.bind_eq_ok.1 h
    obtain ⟨-, hrows, -⟩ := statement_eq_ok.1 hinsert
    rw [addRoots, executeBatch_eq_ok hcreate]
    exact hrows
  fails m hm c := by
    refine ⟨fun n => (m.newV4 n, 0), hm.newV4, fun db h => ?_⟩
    rw [addRoots] at h
    rcases hcreate : Sql.execAll [.createTable true workspaceRootTable] c.db with e | mid
    · simp [hcreate, Bind.bind, Except.bind] at h
    · rw [hcreate] at h
      have hbatch := executeBatch_of_works hm hcreate
      refine ⟨c.executed + 1 + 1, ?_⟩
      show migrateV3 m c = _
      rw [migrateV3, Attempt.bind_of_ok hbatch, statement_eq_ok]
      exact ⟨hm.fault _, h, rfl⟩

def stepV3 : Step := ⟨⟨3, migrateV3⟩, fun _ db => addRoots db, does_migrateV3⟩

/-- The new table, before its rows are added. -/
theorem exists_created (hdb : Fits (schema 2) db) : ∃ mid,
    Sql.execAll [.createTable true workspaceRootTable] db = .ok mid ∧ Fits (schema 3) mid ∧
      Sql.Kept db mid ∧ mid.find "workspace_root" = some workspaceRootTable ∧
      rootsToAdd mid = (mid.rowsOf "workspace").map rootOf := by
  obtain ⟨mid, hcreate, hfits⟩ := Fits.execAll defines_v3 hdb
  have hkept := Sql.execAll_kept hcreate
  have hempty : mid.rowsOf "workspace_root" = [] := by
    refine hkept.fresh _ trivial ?_
    rw [hdb.names]
    decide
  refine ⟨mid, hcreate, hfits, hkept, ?_, ?_⟩
  · obtain ⟨rows, hfind⟩ : ∃ rows, mid.find "workspace_root" =
        some { workspaceRootTable with rows := rows } :=
      hfits.find (show workspaceRootTable ∈ schema 3 by simp [schema])
    have hrows : rows = [] := by
      rw [← hempty, Database.rowsOf_of_find hfind]
    rw [hrows] at hfind
    exact hfind
  · rw [rootsToAdd, hempty]
    simp

theorem addRoots_of_created
    (h : Sql.execAll [.createTable true workspaceRootTable] db = .ok mid) :
    addRoots db = Sql.insertAll "workspace_root" (rootsToAdd mid) mid := by
  rw [addRoots, h]
  rfl

theorem addRoots_eq (hdb : Fits (schema 2) db) (h : addRoots db = .ok db') : ∃ mid,
    Fits (schema 3) mid ∧ Sql.Kept db mid ∧ mid.find "workspace_root" = some workspaceRootTable ∧
      Sql.insertAll "workspace_root" ((mid.rowsOf "workspace").map rootOf) mid = .ok db' := by
  obtain ⟨mid, hcreate, hfits, hkept, hfind, hroots⟩ := exists_created hdb
  rw [addRoots_of_created hcreate, hroots] at h
  exact ⟨mid, hfits, hkept, hfind, h⟩

theorem find_workspace {v : ℕ} (hv : 0 < v) (hdb : Fits (schema v) db) :
    ∃ rows, db.find "workspace" = some { workspaceTable with rows := rows } := by
  refine hdb.find (t := workspaceTable) ?_
  obtain ⟨v, rfl⟩ : ∃ v', v = v' + 1 := ⟨v - 1, by omega⟩
  rcases v with _ | _ | v <;> simp [schema]

/-- The constraints of the new table are met by the roots of workspaces. -/
theorem rootOf_admits {w : Sql.Row} (hworkspace : workspaceTable.Admits db w)
    (hw : w ∈ db.rowsOf "workspace") : workspaceRootTable.Admits db (rootOf w) := by
  have hid := hworkspace.columns (.ofText "id") (by simp [workspaceTable])
  have hpath := hworkspace.columns (.ofText "root_path") (by simp [workspaceTable])
  constructor
  · intro column hcolumn
    simp only [workspaceRootTable, List.mem_cons, List.not_mem_nil, or_false] at hcolumn
    rcases hcolumn with rfl | rfl | rfl
    · exact hid
    · exact ⟨rfl, fun _ => Value.noConfusion⟩
    · exact hpath
  · intro k hk
    simp only [workspaceRootTable, List.mem_cons, List.not_mem_nil, or_false] at hk
    rcases hk with rfl | rfl
    · trivial
    · exact .inr ⟨w, hw, rfl⟩

theorem leads_v3 : stepV3.Leads (schema 2) (schema 3) where
  fits seeds db db' hdb h := by
    obtain ⟨mid, hfits, -, hfind, hinsert⟩ := addRoots_eq hdb h
    refine ⟨Sql.insertAll_sound hfits.sound hinsert, ?_⟩
    rw [Sql.eq_of_insertAll hinsert, Sql.Database.shape_append]
    exact hfits.shape
  succeeds seeds _ db hdb := by
    obtain ⟨mid, hcreate, hfits, -, hfind, hroots⟩ := exists_created hdb
    obtain ⟨rows, hworkspace⟩ := find_workspace (by omega) hfits
    refine ⟨mid.alter "workspace_root"
      (Sql.Table.append ((mid.rowsOf "workspace").map rootOf)), ?_⟩
    show addRoots db = _
    rw [addRoots_of_created hcreate, hroots]
    refine Sql.insertAll_ok hfind (fun r hr => ?_) fun k hk => ?_
    · obtain ⟨w, hw, rfl⟩ := List.mem_map.1 hr
      have hadmits := hfits.sound.admits hworkspace hw
      exact rootOf_admits ⟨hadmits.columns, hadmits.constraints⟩ hw
    · have hdistinct := (hfits.sound.tables _ (Sql.Database.mem_of_find hworkspace)).apart
        (.unique ["id"] none) (by simp [workspaceTable])
      rw [Sql.Database.rowsOf_of_find hworkspace]
      show (rows.map rootOf).Pairwise _
      rw [List.pairwise_map]
      refine hdistinct.imp fun {w w'} happart => ?_
      simp only [workspaceRootTable, List.mem_cons, List.not_mem_nil, or_false] at hk
      rcases hk with rfl | rfl
      · intro _
        obtain ⟨column, hcolumn, hne⟩ := happart fun a ha => by simp at ha
        obtain rfl := List.mem_singleton.1 hcolumn
        exact ⟨"workspace_id", by simp, hne⟩
      · trivial

/-! ### What an upgrade does -/

def chain : Chain where
  steps := [.define 1 migrateV1, .define 2 migrateV2, stepV3]
  schema := schema
  ascends := ⟨rfl, leads_define defines_v1, rfl, leads_define defines_v2, rfl, leads_v3, trivial⟩

/-- An upgraded database: the rows that were there are as they were, the roots of the workspaces are
theirs from before, and the other new tables are empty. -/
structure Upgraded (db db' : Database) : Prop where
  valid : chain.ValidAt schemaVersion db'
  kept : ∀ name ∈ db.names, db'.rowsOf name = db.rowsOf name
  roots : "workspace_root" ∉ db.names → ∀ w ∈ db.rowsOf "workspace",
    (db'.rowsOf "workspace_root").filter (fun x => x "workspace_id" = w "id") = [rootOf w]
  onlyRoots : "workspace_root" ∉ db.names → ∀ x ∈ db'.rowsOf "workspace_root",
    ∃ w ∈ db.rowsOf "workspace", x = rootOf w
  fresh : ∀ name, name ∉ db.names → name ≠ "workspace_root" → db'.rowsOf name = []

/-- The tables of an earlier version are tables of the current one, and the new one is not among
them. -/
theorem mem_schema {v : ℕ} (hv : v ≤ 2) {t : Table} (ht : t ∈ schema v) :
    t ∈ schema 3 ∧ t.name ≠ "workspace_root" := by
  have hsub : t ∈ schema 2 := by
    obtain rfl | rfl | rfl : v = 0 ∨ v = 1 ∨ v = 2 := by omega
    · simp [schema] at ht
    · simp only [schema, List.mem_cons, List.not_mem_nil, or_false] at ht ⊢
      tauto
    · exact ht
  simp only [schema, List.mem_cons, List.not_mem_nil, or_false] at hsub ⊢
  rcases hsub with rfl | rfl | rfl | rfl
  all_goals exact ⟨by simp, by decide⟩

/-- Before the last step the tables of version 2 are there. -/
theorem exists_v2 {v : ℕ} (hv : v ≤ 2) (hdb : chain.ValidAt v db)
    (h : Upgrade ((chain.steps.drop v).map Step.effect) db db') :
    ∃ mid, Fits (schema 2) mid ∧ Sql.Kept db mid ∧ addRoots mid = .ok db' := by
  obtain rfl | rfl | rfl : v = 0 ∨ v = 1 ∨ v = 2 := by omega
  · obtain ⟨seeds, mid, h₁, seeds', mid', h₂, seeds'', mid'', h₃, rfl⟩ := h
    have hfits := (leads_define defines_v1).fits seeds db mid hdb.fits h₁
    exact ⟨mid', (leads_define defines_v2).fits seeds' mid mid' hfits h₂,
      (Sql.execAll_kept h₁).trans (Sql.execAll_kept h₂), h₃⟩
  · obtain ⟨seeds, mid, h₂, seeds', mid', h₃, rfl⟩ := h
    exact ⟨mid, (leads_define defines_v2).fits seeds db mid hdb.fits h₂, Sql.execAll_kept h₂, h₃⟩
  · obtain ⟨seeds, mid, h₃, rfl⟩ := h
    exact ⟨db, hdb.fits, .refl db, h₃⟩

theorem upgraded_of_addRoots {v : ℕ} {d : Database} (hv : v ≤ 2) (hdb : chain.ValidAt v db)
    (hvalid : chain.ValidAt schemaVersion (d.setVersion schemaVersion))
    (h : Upgrade ((chain.steps.drop v).map Step.effect) db d) :
    Upgraded db (d.setVersion schemaVersion) := by
  obtain ⟨d₂, hfits₂, hkept₂, hroots⟩ := exists_v2 hv hdb h
  obtain ⟨mid, hfits, hkept₃, hfind, hinsert⟩ := addRoots_eq hfits₂ hroots
  have hkept := hkept₂.trans hkept₃
  have hd := Sql.eq_of_insertAll hinsert
  have hother {name : String} (hname : name ≠ "workspace_root") :
      d.rowsOf name = mid.rowsOf name := by
    rw [hd, Sql.Database.rowsOf_alter_of_ne (Sql.Table.name_append _) hname]
  have hold {name : String} (hname : name ∈ db.names) :
      name ≠ "workspace_root" ∧ mid.rowsOf name = db.rowsOf name := by
    rw [hdb.fits.names] at hname
    obtain ⟨t, ht, rfl⟩ := List.mem_map.1 hname
    obtain ⟨ht₃, hne⟩ := mem_schema hv ht
    exact ⟨hne, hdb.fits.rowsOf_eq hfits hkept ht ht₃⟩
  have hworkspaces : mid.rowsOf "workspace" = db.rowsOf "workspace" := by
    by_cases hname : "workspace" ∈ db.names
    · exact (hold hname).2
    · rw [hkept.fresh _ trivial hname, Sql.Database.rowsOf_of_notMem hname]
  have hrows : d.rowsOf "workspace_root" = (db.rowsOf "workspace").map rootOf := by
    rw [hd, Sql.Database.rowsOf_of_find (Sql.Database.find_append hfind), hworkspaces]
    rfl
  refine ⟨hvalid, fun name hname => ?_, fun _ w hw => ?_, fun _ x hx => ?_,
    fun name hname hne => ?_⟩
  · show d.rowsOf name = _
    rw [hother (hold hname).1, (hold hname).2]
  · show (d.rowsOf "workspace_root").filter _ = _
    obtain ⟨rows, hworkspace⟩ := find_workspace (by omega) hfits
    have hid : Column.ofText "id" ∈ workspaceTable.columns := by simp [workspaceTable]
    have hunique : Sql.Constraint.unique ["id"] none ∈ workspaceTable.constraints := by
      simp [workspaceTable]
    have hdistinct := hfits.sound.pairwise_ne hworkspace hunique hid rfl rfl
    rw [hworkspaces] at hdistinct
    rw [hrows, List.filter_map]
    exact congrArg (List.map rootOf) (Sql.filter_column hdistinct hw)
  · have hmem : x ∈ d.rowsOf "workspace_root" := hx
    rw [hrows] at hmem
    obtain ⟨w, hw, rfl⟩ := List.mem_map.1 hmem
    exact ⟨w, hw, rfl⟩
  · show d.rowsOf name = _
    rw [hother hne, hkept.fresh name trivial hname]

theorem respects_steps : ∀ step ∈ chain.steps, step.effect.Respects Eq := by
  intro step hstep
  simp only [chain, List.mem_cons, List.not_mem_nil, or_false] at hstep
  rcases hstep with rfl | rfl | rfl
  · exact respects_define
  · exact respects_define
  · refine respects_eq (fun _ _ => rfl) fun _ db version => ?_
    show addRoots (db.setVersion version) = (addRoots db).map _
    rw [addRoots, addRoots, Sql.execAll_setVersion]
    rcases Sql.execAll [.createTable true workspaceRootTable] db with e | mid
    · rfl
    · exact Sql.insertAll_setVersion

theorem upgraded_self (hdb : chain.ValidAt schemaVersion db) : Upgraded db db := by
  have hnames : "workspace_root" ∈ db.names := by
    rw [hdb.fits.names]
    decide
  exact ⟨hdb, fun _ _ => rfl, fun hnot => absurd hnames hnot, fun hnot => absurd hnames hnot,
    fun name hname _ => Sql.Database.rowsOf_of_notMem hname⟩

theorem carries {v : ℕ} (hv : v ≤ schemaVersion) (hdb : chain.ValidAt v db) :
    chain.Carries schemaVersion Upgraded Eq v db := by
  refine Chain.carries hdb hv (fun step hstep => respects_steps step (List.mem_of_mem_drop hstep))
    (fun _ => rfl) (fun hcurrent => ?_) fun db' hvalid d hd h => ?_
  · obtain rfl : v = schemaVersion := hcurrent
    exact upgraded_self hdb
  · subst hd
    by_cases hlast : v = schemaVersion
    · subst hlast
      obtain rfl : d = db := h
      have hsame : d.setVersion schemaVersion = d := by
        rw [Sql.Database.setVersion, ← hdb.userVersion]
      have hself := upgraded_self hdb
      show Upgraded d (d.setVersion schemaVersion)
      rw [hsame]
      exact hself
    · exact upgraded_of_addRoots (by unfold schemaVersion at hv hlast; omega) hdb hvalid h

end SessiondSchema

end BuilderPro
