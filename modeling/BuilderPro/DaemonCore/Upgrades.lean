import BuilderPro.Orchd.Migrations
import BuilderPro.Sessiond.Migrations

/-!
# Upgrades

Both daemons' databases, opened by the current build: the chain of each loses and invents nothing.
-/

namespace BuilderPro

open Sql (Database)

/-- A database of any version, of either daemon, is left as it was or upgraded; and by way of any
versions it becomes what it becomes at once. -/
theorem upgrades_carry :
    (∀ v ≤ SessiondSchema.schemaVersion, ∀ db, SessiondSchema.chain.ValidAt v db →
      SessiondSchema.chain.Carries SessiondSchema.schemaVersion SessiondSchema.Upgraded Eq v db) ∧
    ∀ v ≤ OrchdSchema.schemaVersion, ∀ db, OrchdSchema.chain.ValidAt v db →
      OrchdSchema.chain.Carries OrchdSchema.schemaVersion (OrchdSchema.Upgraded v)
        (OrchdSchema.Same v) v db :=
  ⟨fun _ hv _ hdb => SessiondSchema.carries hv hdb, fun _ hv _ hdb => OrchdSchema.carries hv hdb⟩

/-- A session daemon's database of version 2: two workspaces, one with a session. -/
def twoWorkspaces : Database where
  tables := [
    { SessiondSchema.workspaceTable with
      rows := [
        Sql.rowOf [("id", .text "w1"), ("name", .text "api"), ("root_path", .text "/src/api")],
        Sql.rowOf [("id", .text "w2"), ("name", .text "web"), ("root_path", .text "/src/web")]] },
    { SessiondSchema.sessionTable with
      rows := [
        Sql.rowOf [("id", .text "s1"), ("workspace_id", .text "w1"), ("title", .text "zsh"),
          ("shell", .text "/bin/zsh"), ("cwd", .text "/src/api"), ("cols", .integer 80),
          ("rows", .integer 24), ("lifecycle", .text "exited"), ("exit_code", .integer 0),
          ("created_at", .integer 1700000000)]] },
    SessiondSchema.scrollbackTable, SessiondSchema.commandEventsTable]
  userVersion := 2

/-- An orchestrator's database of version 1: two projects, each with its strategic goal, and a goal
under one of them. -/
def twoProjects : Database where
  tables := [
    { OrchdSchema.projectTable with
      rows := [
        Sql.rowOf [("id", .text "p1"), ("name", .text "api"), ("description", .text ""),
          ("status", .text "active"), ("created_at", .integer 1), ("updated_at", .integer 1)],
        Sql.rowOf [("id", .text "p2"), ("name", .text "web"), ("description", .text ""),
          ("status", .text "archived"), ("created_at", .integer 2), ("updated_at", .integer 5)]] },
    OrchdSchema.projectWorkspaceTable,
    { OrchdSchema.goalTable with
      rows := [goal "g1" "p1" .null "strategic" "Ship it", goal "g2" "p2" .null "strategic" "Grow",
        goal "g3" "p1" (.text "g1") "additional" "Write the docs"] },
    OrchdSchema.ideaTable, OrchdSchema.insightTable, OrchdSchema.taskTable,
    OrchdSchema.rulesetTable]
  userVersion := 1
where
  goal (id projectId : String) (parentId : Sql.Value) (kind title : String) : Sql.Row :=
    Sql.rowOf [("id", .text id), ("project_id", .text projectId), ("parent_id", parentId),
      ("kind", .text kind), ("title", .text title), ("body", .text ""), ("ord", .integer 0),
      ("status", .text "active"), ("metric_refs", .text "[]"), ("created_at", .integer 3),
      ("updated_at", .integer 3)]

theorem validAt_twoWorkspaces : SessiondSchema.chain.ValidAt 2 twoWorkspaces := by
  refine ⟨rfl, ⟨by decide, fun t ht => ?_⟩, rfl⟩
  simp only [twoWorkspaces, List.mem_cons, List.not_mem_nil, or_false] at ht
  rcases ht with rfl | rfl | rfl | rfl
  all_goals exact ⟨by decide, by decide⟩

theorem validAt_twoProjects : OrchdSchema.chain.ValidAt 1 twoProjects := by
  refine ⟨rfl, ⟨by decide, fun t ht => ?_⟩, rfl⟩
  simp only [twoProjects, List.mem_cons, List.not_mem_nil, or_false] at ht
  rcases ht with rfl | rfl | rfl | rfl | rfl | rfl | rfl
  all_goals exact ⟨by decide, by decide⟩

theorem upgrades_carry_rows :
    SessiondSchema.chain.Carries SessiondSchema.schemaVersion SessiondSchema.Upgraded Eq 2
        twoWorkspaces ∧
      OrchdSchema.chain.Carries OrchdSchema.schemaVersion (OrchdSchema.Upgraded 1)
        (OrchdSchema.Same 1) 1 twoProjects :=
  ⟨upgrades_carry.1 2 (by decide) twoWorkspaces validAt_twoWorkspaces,
    upgrades_carry.2 1 (by decide) twoProjects validAt_twoProjects⟩

end BuilderPro
