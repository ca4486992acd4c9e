import BuilderPro.Orchd.SchemaSteps

/-!
# The backfill of strategic goals

Version 2 seeds a graph node for each strategic goal that has none (`seedGraph_eq_ok`).  Where the
goals' texts can be read, it does so whatever ids are drawn, as long as they are distinct
(`leads_v2`).
-/

namespace BuilderPro

open Sql (Database Definition Table Column Cond Constraint Value)

namespace OrchdSchema

variable {m : Machine} {c c' : Connection} {db db' mid : Database} {g n : Sql.Row}
  {goals : List (String × String × String)} {seeds seeds' : Seeds}

def seedRows : Seeds → List (String × String × String) → List Sql.Row
  | _, [] => []
  | seeds, (goalId, projectId, title) :: goals =>
    seedRow (seeds 0).1 projectId goalId title (seeds 0).2 ::
      seedRows (fun k => seeds (k + 1)) goals

def seedGraph (seeds : Seeds) (db : Database) : Except String Database := do
  let db ← Sql.execAll graphTables db
  let goals ← readPending db
  Sql.insertAll "graph_node" (seedRows seeds goals) db

/-- The ids and times generated from now on. -/
def seedsFrom (m : Machine) (k : ℕ) : Seeds := fun n => (m.newV4 (k + n), m.nowMs (k + n))

theorem seedsFrom_succ (m : Machine) (k : ℕ) :
    (fun n => seedsFrom m k (n + 1)) = seedsFrom m (k + 1) := by
  funext n
  simp only [seedsFrom, show k + (n + 1) = k + 1 + n by omega]

theorem forM_seed {u : Unit} (h : goals.forM
      (fun g => seedStrategicEntityRef m g.2.1 g.1 g.2.2) c = (.ok u, c')) :
    Sql.insertAll "graph_node" (seedRows (seedsFrom m c.executed) goals) c.db = .ok c'.db := by
  induction goals generalizing c with
  | nil =>
    obtain ⟨-, rfl⟩ := Prod.mk.inj h
    rfl
  | cons g goals ih =>
    rw [forM_cons, Attempt.bind_eq_ok] at h
    obtain ⟨_, c₁, hseed, hrest⟩ := h
    obtain ⟨-, hinsert, hexecuted⟩ := statement_eq_ok.1 hseed
    have hgoals := ih hrest
    rw [hexecuted, ← seedsFrom_succ] at hgoals
    rw [seedRows, Sql.insertAll, List.foldlM_cons]
    have hfirst : Sql.insert "graph_node" (seedRow (seedsFrom m c.executed 0).1 g.2.1 g.1 g.2.2
        (seedsFrom m c.executed 0).2) c.db = .ok c₁.db := hinsert
    rw [hfirst]
    exact hgoals

theorem forM_seed_of_works (hm : m.Works)
    (h : Sql.insertAll "graph_node" (seedRows (seedsFrom m c.executed) goals) c.db = .ok db) :
    ∃ k, goals.forM (fun g => seedStrategicEntityRef m g.2.1 g.1 g.2.2) c =
      (.ok (), ⟨db, k⟩) := by
  induction goals generalizing c with
  | nil =>
    obtain rfl := Except.ok.inj h
    exact ⟨c.executed, rfl⟩
  | cons g goals ih =>
    rw [seedRows, Sql.insertAll, List.foldlM_cons] at h
    rcases hinsert : Sql.insert "graph_node" (seedRow (seedsFrom m c.executed 0).1 g.2.1 g.1 g.2.2
        (seedsFrom m c.executed 0).2) c.db with e | mid <;> rw [hinsert] at h
    · simp [Bind.bind, Except.bind] at h
    · rw [seedsFrom_succ] at h
      have hstatement : seedStrategicEntityRef m g.2.1 g.1 g.2.2 c =
          (.ok (), ⟨mid, c.executed + 1⟩) := statement_eq_ok.2 ⟨hm.fault _, hinsert, rfl⟩
      obtain ⟨k, hrest⟩ := @ih ⟨mid, c.executed + 1⟩ h
      refine ⟨k, ?_⟩
      rw [forM_cons, Attempt.bind_of_ok hstatement]
      exact hrest

theorem query_eq_ok {α : Type} {f : Database → Except String α} {a : α} :
    query m f c = (.ok a, c') ↔ m.fault c.executed = none ∧ f c.db = .ok a ∧
      c' = ⟨c.db, c.executed + 1⟩ := by
  unfold query
  rcases m.fault c.executed with _ | e
  · rcases f c.db with e | b
    · simp [Except.mapError]
    · simp [Except.mapError, eq_comm]
  · simp [Except.mapError]

theorem seedGraph_of_created (h : Sql.execAll graphTables db = .ok mid)
    (hgoals : readPending mid = .ok goals) :
    seedGraph seeds db = Sql.insertAll "graph_node" (seedRows seeds goals) mid := by
  rw [seedGraph, h]
  show (readPending mid >>= _) = _
  rw [hgoals]
  rfl

theorem seedGraph_eq_ok (h : seedGraph seeds db = .ok db') : ∃ mid goals,
    Sql.execAll graphTables db = .ok mid ∧ readPending mid = .ok goals ∧
      Sql.insertAll "graph_node" (seedRows seeds goals) mid = .ok db' := by
  rcases hcreate : Sql.execAll graphTables db with e | mid
  · simp [seedGraph, hcreate, Bind.bind, Except.bind] at h
  · rcases hgoals : readPending mid with e | goals
    · rw [seedGraph, hcreate] at h
      simp [Bind.bind, Except.bind, hgoals] at h
    · rw [seedGraph_of_created hcreate hgoals] at h
      exact ⟨mid, goals, rfl, hgoals, h⟩

theorem does_migrateV2 : Migration.Does ⟨2, migrateV2⟩ seedGraph where
  only m c c' h := by
    obtain ⟨_, c₁, hcreate, h⟩ := Attempt.bind_eq_ok.1 h
    obtain ⟨goals, c₂, hread, hseed⟩ := Attempt.bind_eq_ok.1 h
    obtain ⟨-, hgoals, rfl⟩ := query_eq_ok.1 hread
    refine ⟨seedsFrom m (c₁.executed + 1), ?_⟩
    rw [seedGraph_of_created (executeBatch_eq_ok hcreate) hgoals]
    exact forM_seed hseed
  fails m hm c := by
    refine ⟨seedsFrom m (c.executed + graphTables.length + 1), fun k k' h => ?_, fun db h => ?_⟩
    · have hid := hm.newV4 h
      omega
    · obtain ⟨mid, goals, hcreate, hgoals, hinsert⟩ := seedGraph_eq_ok h
      have hread : query m readPending ⟨mid, c.executed + graphTables.length⟩ =
          (.ok goals, ⟨mid, c.executed + graphTables.length + 1⟩) :=
        query_eq_ok.2 ⟨hm.fault _, hgoals, rfl⟩
      obtain ⟨k, hseed⟩ := forM_seed_of_works (c := ⟨mid, _⟩) hm hinsert
      refine ⟨k, ?_⟩
      show migrateV2 m c = _
      rw [migrateV2, Attempt.bind_of_ok (executeBatch_of_works hm hcreate),
        Attempt.bind_of_ok hread]
      exact hseed

def stepV2 : Step := ⟨⟨2, migrateV2⟩, seedGraph, does_migrateV2⟩

/-- The strategic goals of a database, each with what is read of it. -/
def ReadsAs (g : Sql.Row) (x : String × String × String) : Prop :=
  g "id" = .text x.1 ∧ g "project_id" = .text x.2.1 ∧ g "title" = .text x.2.2

theorem getText_eq_ok {v : Value} {s : String} : getText v = .ok s ↔ v = .text s := by
  rcases v with _ | _ | _ | _ | _ <;> simp [getText]

theorem readGoal_eq_ok {x : String × String × String} : readGoal g = .ok x ↔ ReadsAs g x := by
  unfold readGoal ReadsAs
  rw [← getText_eq_ok, ← getText_eq_ok, ← getText_eq_ok]
  rcases getText (g "id") with e | id
  · simp [Bind.bind, Except.bind]
  · rcases getText (g "project_id") with e | projectId
    · simp [Bind.bind, Except.bind]
    · rcases getText (g "title") with e | title
      · simp [Bind.bind, Except.bind]
      · simp [Bind.bind, Except.bind, Pure.pure, Except.pure, Prod.ext_iff]

theorem mapM_readGoal {gs : List Sql.Row} :
    gs.mapM readGoal = .ok goals ↔ List.Forall₂ ReadsAs gs goals := by
  induction gs generalizing goals with
  | nil =>
    rw [List.mapM_nil, List.forall₂_nil_left_iff]
    exact ⟨fun h => (Except.ok.inj h).symm, fun h => by rw [h]; rfl⟩
  | cons g gs ih =>
    rw [List.mapM_cons, List.forall₂_cons_left_iff]
    simp only [← readGoal_eq_ok, ← ih]
    rcases readGoal g with e | x
    · simp [Bind.bind, Except.bind]
    · rcases gs.mapM readGoal with e | l
      · simp [Bind.bind, Except.bind]
      · simp [Bind.bind, Except.bind, Pure.pure, Except.pure, eq_comm]

theorem readPending_eq_ok : readPending db = .ok goals ↔
    List.Forall₂ ReadsAs (pending db) goals := mapM_readGoal

/-- The new tables, before the nodes are added. -/
theorem exists_created (hdb : Fits (schema 1) db) (h : Sql.execAll graphTables db = .ok mid) :
    Fits (schema 2) mid ∧ Sql.Kept db mid ∧ mid.find "graph_node" = some graphNodeTable ∧
      pending mid = (mid.rowsOf "goal").filter isStrategic := by
  obtain ⟨mid', hcreate, hfits⟩ := Fits.execAll defines_graphTables hdb
  obtain rfl : mid = mid' := Except.ok.inj (h.symm.trans hcreate)
  have hkept := Sql.execAll_kept hcreate
  have hempty : mid.rowsOf "graph_node" = [] := by
    refine hkept.fresh _ trivial ?_
    rw [hdb.names]
    decide
  refine ⟨hfits, hkept, ?_, ?_⟩
  · obtain ⟨rows, hfind⟩ : ∃ rows, mid.find "graph_node" =
        some { graphNodeTable with rows := rows } :=
      hfits.find (show graphNodeTable ∈ schema 2 by simp [schema, graphSchema])
    have hrows : rows = [] := by
      rw [← hempty, Sql.Database.rowsOf_of_find hfind]
    rw [hrows] at hfind
    exact hfind
  · rw [pending, hempty]
    simp

theorem goalTable_mem {v : ℕ} (hv : 0 < v) : goalTable ∈ schema v := by
  obtain ⟨v, rfl⟩ : ∃ v', v = v' + 1 := ⟨v - 1, by omega⟩
  rcases v with _ | _ | _ | _ | _ | _ | _ | v <;> simp [schema, firstTables]

theorem goals_distinct {v : ℕ} (hv : 0 < v) (hdb : Fits (schema v) db) :
    (db.rowsOf "goal").Pairwise fun g g' => g "id" ≠ g' "id" := by
  obtain ⟨rows, hgoal⟩ := hdb.find (goalTable_mem hv)
  have hid : Column.ofText "id" ∈ goalTable.columns := by simp [goalTable]
  have hunique : Constraint.unique ["id"] none ∈ goalTable.constraints := by simp [goalTable]
  exact hdb.sound.pairwise_ne hgoal hunique hid rfl rfl

theorem mem_seedRows (h : n ∈ seedRows seeds goals) :
    ∃ k, ∃ x ∈ goals, n = seedRow (seeds k).1 x.2.1 x.1 x.2.2 (seeds k).2 := by
  induction goals generalizing seeds with
  | nil => simp [seedRows] at h
  | cons x goals ih =>
    rcases List.mem_cons.1 h with rfl | h
    · exact ⟨0, x, by simp, rfl⟩
    · obtain ⟨k, y, hy, rfl⟩ := ih h
      exact ⟨k + 1, y, by simp [hy], rfl⟩

theorem exists_of_forall₂ {gs : List Sql.Row} {x : String × String × String}
    (h : List.Forall₂ ReadsAs gs goals) (hx : x ∈ goals) : ∃ g ∈ gs, ReadsAs g x := by
  induction h with
  | nil => simp at hx
  | cons hread _ ih =>
    rcases List.mem_cons.1 hx with rfl | hx
    · exact ⟨_, by simp, hread⟩
    · obtain ⟨g, hg, hgx⟩ := ih hx
      exact ⟨g, by simp [hg], hgx⟩

/-- Of the nodes seeded, one refers to a goal that was found. -/
theorem filter_seedRows {gs : List Sql.Row} (hread : List.Forall₂ ReadsAs gs goals)
    (hgs : gs.Pairwise fun g g' => g "id" ≠ g' "id") (hg : g ∈ gs) :
    ∃ n, (seedRows seeds goals).filter (refersTo g) = [n] ∧
      n "project_id" = g "project_id" ∧ n "label" = g "title" := by
  induction hread generalizing seeds with
  | nil => simp at hg
  | @cons g' x gs goals hx hrest ih =>
    obtain ⟨hne, hgs⟩ := List.pairwise_cons.1 hgs
    have hrefers : refersTo g (seedRow (seeds 0).1 x.2.1 x.1 x.2.2 (seeds 0).2) =
        decide ( g' "id" = g "id") := by
      rw [hx.1]
      simp [refersTo, seedRow, Sql.rowOf]
    rw [seedRows, List.filter_cons, hrefers]
    by_cases hsame : g' = g
    · subst hsame
      have hnone : (seedRows (fun k => seeds (k + 1)) goals).filter (refersTo g') = [] := by
        rw [List.filter_eq_nil_iff]
        intro n hn
        obtain ⟨k, y, hy, rfl⟩ := mem_seedRows hn
        obtain ⟨h, hh, hread⟩ := exists_of_forall₂ hrest hy
        have hid := hne h hh
        rw [hread.1] at hid
        simpa [refersTo, seedRow, Sql.rowOf] using fun heq => hid heq.symm
      rw [hnone]
      refine ⟨seedRow (seeds 0).1 x.2.1 x.1 x.2.2 (seeds 0).2, by simp, ?_, ?_⟩
      · rw [hx.2.1]
        rfl
      · rw [hx.2.2]
        rfl
    · have hg : g ∈ gs := by
        rcases List.mem_cons.1 hg with rfl | hg
        · exact absurd rfl hsame
        · exact hg
      rw [if_neg (by simpa using hne g hg)]
      exact ih hgs hg

/-- The constraints of the new table are met by the nodes seeded. -/
theorem seedRow_admits {x : String × String × String} {id : String} {now : ℤ}
    (hread : ReadsAs g x) (hgoal : goalTable.Admits db g) :
    graphNodeTable.Admits db (seedRow id x.2.1 x.1 x.2.2 now) := by
  constructor
  · intro column hcolumn
    simp only [graphNodeTable, List.mem_cons, List.not_mem_nil, or_false] at hcolumn
    rcases hcolumn with rfl | rfl | rfl | rfl | rfl | rfl | rfl | rfl | rfl | rfl | rfl
    all_goals exact ⟨rfl, fun _ => Value.noConfusion⟩
  · intro k hk
    simp only [graphNodeTable, List.mem_cons, List.not_mem_nil, or_false] at hk
    rcases hk with rfl | rfl | rfl | rfl | rfl | rfl
    · trivial
    · have hproject := hgoal.constraints (.references "project_id" "project" "id")
        (by simp [goalTable])
      rcases hproject with hnull | ⟨y, hy, hkey⟩
      · rw [hread.2.1] at hnull
        exact Value.noConfusion hnull
      · refine .inr ⟨y, hy, ?_⟩
        rw [hkey, hread.2.1]
        rfl
    · exact ne_of_eq_of_ne (b := some true) rfl (by simp)
    · exact ne_of_eq_of_ne (b := some true) rfl (by simp)
    · exact ne_of_eq_of_ne (b := some true) rfl (by simp)
    · trivial

theorem seedRows_pairwise_id (hseeds : (Prod.fst ∘ seeds).Injective) :
    (seedRows seeds goals).Pairwise fun r s => r "id" ≠ s "id" := by
  induction goals generalizing seeds with
  | nil => exact .nil
  | cons x goals ih =>
    refine .cons (fun s hs => ?_) (ih fun k k' h => ?_)
    · obtain ⟨k, y, -, rfl⟩ := mem_seedRows hs
      intro h
      have hid : (seeds 0).1 = (seeds (k + 1)).1 := Value.text.inj h
      have hzero := hseeds hid
      omega
    · have hsucc : k + 1 = k' + 1 := hseeds h
      omega

theorem seedRows_pairwise_entity {gs : List Sql.Row} (hread : List.Forall₂ ReadsAs gs goals)
    (hgs : gs.Pairwise fun g g' => g "id" ≠ g' "id") :
    (seedRows seeds goals).Pairwise fun r s => r "entity_id" ≠ s "entity_id" := by
  induction hread generalizing seeds with
  | nil => exact .nil
  | @cons g x gs goals hx hrest ih =>
    obtain ⟨hne, hgs⟩ := List.pairwise_cons.1 hgs
    refine .cons (fun s hs => ?_) (ih hgs)
    obtain ⟨k, y, hy, rfl⟩ := mem_seedRows hs
    obtain ⟨g', hg', hread⟩ := exists_of_forall₂ hrest hy
    have hid := hne g' hg'
    rw [hx.1, hread.1] at hid
    exact hid

theorem seedRows_apart {gs : List Sql.Row} (hseeds : (Prod.fst ∘ seeds).Injective)
    (hread : List.Forall₂ ReadsAs gs goals) (hgs : gs.Pairwise fun g g' => g "id" ≠ g' "id")
    {k : Constraint} (hk : k ∈ graphNodeTable.constraints) :
    (seedRows seeds goals).Pairwise fun r s => k.Apart r s := by
  simp only [graphNodeTable, List.mem_cons, List.not_mem_nil, or_false] at hk
  rcases hk with rfl | rfl | rfl | rfl | rfl | rfl
  · exact (seedRows_pairwise_id hseeds).imp fun h _ => ⟨"id", by simp, .inr (.inr h)⟩
  · exact List.pairwise_of_forall fun _ _ => trivial
  · exact List.pairwise_of_forall fun _ _ => trivial
  · exact List.pairwise_of_forall fun _ _ => trivial
  · exact List.pairwise_of_forall fun _ _ => trivial
  · exact (seedRows_pairwise_entity hread hgs).imp fun h _ =>
      ⟨"entity_id", by simp, .inr (.inr h)⟩

/-- The goals of a sound database can be read. -/
theorem exists_readPending (hfits : Fits (schema 2) mid) :
    ∃ goals, readPending mid = .ok goals := by
  obtain ⟨rows, hgoal⟩ := hfits.find (goalTable_mem (v := 2) (by omega))
  have hread : ∀ gs : List Sql.Row, (∀ g ∈ gs, g ∈ mid.rowsOf "goal") →
      ∃ goals, List.Forall₂ ReadsAs gs goals := by
    intro gs
    induction gs with
    | nil => exact fun _ => ⟨[], .nil⟩
    | cons g gs ih =>
      intro hgs
      obtain ⟨goals, hgoals⟩ := ih fun g' hg' => hgs g' (by simp [hg'])
      have hadmits := hfits.sound.admits hgoal (hgs g (by simp))
      have htext (name : String) (hname : Column.ofText name ∈ goalTable.columns) :
          ∃ s, g name = .text s := by
        obtain ⟨hkind, hnull⟩ := hadmits.columns (.ofText name) hname
        rcases hv : g name with _ | _ | _ | s | _
        · exact absurd hv (hnull rfl)
        · simp [Column.ofText, hv, Value.fits] at hkind
        · simp [Column.ofText, hv, Value.fits] at hkind
        · exact ⟨s, rfl⟩
        · simp [Column.ofText, hv, Value.fits] at hkind
      obtain ⟨id, hid⟩ := htext "id" (by simp [goalTable])
      obtain ⟨projectId, hprojectId⟩ := htext "project_id" (by simp [goalTable])
      obtain ⟨title, htitle⟩ := htext "title" (by simp [goalTable])
      exact ⟨(id, projectId, title) :: goals, .cons ⟨hid, hprojectId, htitle⟩ hgoals⟩
  obtain ⟨goals, hgoals⟩ := hread (pending mid) fun g hg => List.mem_of_mem_filter hg
  exact ⟨goals, readPending_eq_ok.2 hgoals⟩

theorem leads_v2 : stepV2.Leads (schema 1) (schema 2) where
  fits seeds db db' hdb h := by
    obtain ⟨mid, goals, hcreate, -, hinsert⟩ := seedGraph_eq_ok h
    obtain ⟨hfits, -, -, -⟩ := exists_created hdb hcreate
    refine ⟨Sql.insertAll_sound hfits.sound hinsert, ?_⟩
    rw [Sql.eq_of_insertAll hinsert, Sql.Database.shape_append]
    exact hfits.shape
  succeeds seeds hseeds db hdb := by
    obtain ⟨mid, hcreate, hfits⟩ := Fits.execAll defines_graphTables hdb
    obtain ⟨-, -, hfind, hpending⟩ := exists_created hdb hcreate
    obtain ⟨goals, hgoals⟩ := exists_readPending hfits
    obtain ⟨rows, hgoal⟩ := hfits.find (goalTable_mem (v := 2) (by omega))
    have hread := readPending_eq_ok.1 hgoals
    have hdistinct : (pending mid).Pairwise fun g g' => g "id" ≠ g' "id" := by
      rw [hpending]
      exact (goals_distinct (v := 2) (by omega) hfits).filter _
    refine ⟨mid.alter "graph_node" (Sql.Table.append (seedRows seeds goals)), ?_⟩
    show seedGraph seeds db = _
    rw [seedGraph_of_created hcreate hgoals]
    refine Sql.insertAll_ok hfind (fun r hr => ?_) fun k hk =>
      seedRows_apart hseeds hread hdistinct hk
    obtain ⟨k, x, hx, rfl⟩ := mem_seedRows hr
    obtain ⟨g, hg, hreads⟩ := exists_of_forall₂ hread hx
    have hadmits := hfits.sound.admits hgoal (List.mem_of_mem_filter hg)
    exact seedRow_admits hreads ⟨hadmits.columns, hadmits.constraints⟩

end OrchdSchema

end BuilderPro
