import BuilderPro.Orchd.GoalBackfill

/-!
# The migrations of the orchestrator

An upgrade keeps the rows, gives the added columns their defaults and seeds the strategic goals
(`upgraded_of_upgrade`); what it leaves depends on the ids and times of the seeded nodes only, so the
chain carries (`carries`).
-/

namespace BuilderPro

open Sql (Database Definition Table Column Cond Constraint Value)

namespace OrchdSchema

variable {m : Machine} {c c' : Connection} {db db' mid : Database} {g n : Sql.Row}
  {goals : List (String × String × String)} {seeds seeds' : Seeds}

/-- A node without what is generated for it. -/
def forgetRow (r : Sql.Row) : Sql.Row := fun column =>
  if column ∈ ["id", "created_at", "updated_at"] then .null else r column

def forgetNodes (tables : List Table) : List Table :=
  (Database.mapRows "graph_node" forgetRow ⟨tables, 0⟩).tables

/-- Tables that are the same but for what is generated for the nodes seeded. -/
def SameButSeeds (a b : List Table) : Prop := forgetNodes a = forgetNodes b

theorem mapRows_of_same (h : SameButSeeds db.tables db'.tables) :
    db'.mapRows "graph_node" forgetRow =
      (db.mapRows "graph_node" forgetRow).setVersion db'.userVersion := by
  have htables : (db'.mapRows "graph_node" forgetRow).tables =
      (db.mapRows "graph_node" forgetRow).tables := h.symm
  rw [Database.setVersion, ← htables]
  rfl

theorem respects_define {upto : ℤ} {definitions : List Definition}
    (h : ∀ d ∈ definitions, d.Spares "graph_node") :
    (Step.define upto definitions).effect.Respects SameButSeeds := by
  intro seeds seeds' db db' mid mid' hsame hmid hmid'
  have hrun : Sql.execAll definitions (db.mapRows "graph_node" forgetRow) =
      .ok (mid.mapRows "graph_node" forgetRow) := by
    rw [Sql.execAll_mapRows h]
    show (Sql.execAll definitions db).map _ = _
    rw [show Sql.execAll definitions db = .ok mid from hmid]
    rfl
  have hrun' : Sql.execAll definitions (db'.mapRows "graph_node" forgetRow) =
      .ok (mid'.mapRows "graph_node" forgetRow) := by
    rw [Sql.execAll_mapRows h]
    show (Sql.execAll definitions db').map _ = _
    rw [show Sql.execAll definitions db' = .ok mid' from hmid']
    rfl
  rw [mapRows_of_same hsame, Sql.execAll_setVersion, hrun] at hrun'
  have htables := congrArg Database.tables (Except.ok.inj hrun')
  exact htables

theorem map_forgetRow : (seedRows seeds goals).map forgetRow =
    (seedRows seeds' goals).map forgetRow := by
  induction goals generalizing seeds seeds' with
  | nil => rfl
  | cons x goals ih =>
    have hfirst : forgetRow (seedRow (seeds 0).1 x.2.1 x.1 x.2.2 (seeds 0).2) =
        forgetRow (seedRow (seeds' 0).1 x.2.1 x.1 x.2.2 (seeds' 0).2) := by
      funext column
      simp only [forgetRow]
      split_ifs with hcolumn
      · rfl
      · simp only [List.mem_cons, List.not_mem_nil, or_false, not_or] at hcolumn
        simp [seedRow, Sql.rowOf, List.find?_cons, Ne.symm hcolumn.1, Ne.symm hcolumn.2.1,
          Ne.symm hcolumn.2.2]
    simp only [seedRows, List.map_cons]
    rw [hfirst, ih]

/-- Where the tables of nodes are created there was none. -/
theorem graphNode_notMem (h : Sql.execAll graphTables db = .ok mid) : "graph_node" ∉ db.names := by
  intro hname
  have hfirst : Definition.exec db (.createTable false graphNodeTable) =
      .error ("table " ++ "graph_node" ++ " already exists") := by
    have hname' : graphNodeTable.name ∈ db.names := hname
    simp only [Definition.exec, hname', if_true]
    rfl
  rw [graphTables, Sql.execAll, List.foldlM_cons, hfirst] at h
  simp [Bind.bind, Except.bind] at h

theorem mapRows_of_notMem (h : "graph_node" ∉ db.names) :
    db.mapRows "graph_node" forgetRow = db := by
  have hsame : db.tables.map (fun t => if t.name = "graph_node" then t.mapRows forgetRow else t) =
      db.tables := by
    refine (List.map_congr_left fun t ht => ?_).trans (List.map_id _)
    rw [if_neg, id_eq]
    intro hname
    exact h (hname ▸ List.mem_map_of_mem ht)
  rw [Database.mapRows, Database.alter, hsame]

theorem respects_seedGraph : Effect.Respects SameButSeeds seedGraph := by
  intro seeds seeds' db db' end' end'' hsame h h'
  obtain ⟨mid, goals, hcreate, hgoals, hinsert⟩ := seedGraph_eq_ok h
  obtain ⟨mid', goals', hcreate', hgoals', hinsert'⟩ := seedGraph_eq_ok h'
  have hdb' : db' = db.setVersion db'.userVersion := by
    have hsame' := mapRows_of_same hsame
    rwa [mapRows_of_notMem (graphNode_notMem hcreate),
      mapRows_of_notMem (graphNode_notMem hcreate')] at hsame'
  rw [hdb', Sql.execAll_setVersion, hcreate] at hcreate'
  obtain rfl := Except.ok.inj hcreate'
  obtain rfl : goals = goals' := Except.ok.inj (hgoals.symm.trans hgoals')
  rw [Sql.eq_of_insertAll hinsert, Sql.eq_of_insertAll hinsert']
  have hforget (db : Database) (seeds : Seeds) :
      forgetNodes (db.alter "graph_node" (Sql.Table.append (seedRows seeds goals))).tables =
        ((db.mapRows "graph_node" forgetRow).alter "graph_node"
          (Sql.Table.append ((seedRows seeds goals).map forgetRow))).tables := by
    rw [← Database.mapRows_append]
    rfl
  rw [SameButSeeds, hforget, hforget, @map_forgetRow goals seeds seeds']
  rfl

/-! ### What an upgrade does -/

def chain : Chain where
  steps := [.define 1 migrateV1, stepV2, .define 3 migrateV3, .define 4 migrateV4,
    .define 5 migrateV5, .define 6 migrateV6, .define 7 migrateV7, .define 8 migrateV8]
  schema := schema
  ascends := ⟨rfl, leads_define defines_v1, rfl, leads_v2, rfl, leads_define defines_v3, rfl,
    leads_define defines_v4, rfl, leads_define defines_v5, rfl, leads_define defines_v6, rfl,
    leads_define defines_v7, rfl, leads_define defines_v8, trivial⟩

/-- Tables upgraded from a version that are the same, but for what is generated. -/
def Same (version : ℕ) (a b : List Table) : Prop :=
  if version ≤ 1 then SameButSeeds a b else a = b

/-- A database upgraded from a version: what rows there were are as they were, with the defaults of
the columns added; there is a node for each strategic goal where it has none, and no other; and the
other new tables are empty. -/
structure Upgraded (version : ℕ) (db db' : Database) : Prop where
  valid : chain.ValidAt schemaVersion db'
  kept : ∀ name t, db.find name = some t → ∃ t', db'.find name = some t' ∧ t.Grown t'
  priority : version < 5 → ∀ r ∈ db'.rowsOf "task", r "priority" = .text "normal"
  truncated : version < 8 → ∀ r ∈ db'.rowsOf "mcp_artifact", r "truncated" = .integer 0
  nodes : version = 1 → ∀ g ∈ db.rowsOf "goal", isStrategic g → ∃ n,
    (db'.rowsOf "graph_node").filter (refersTo g) = [n] ∧
      n "project_id" = g "project_id" ∧ n "label" = g "title"
  onlyNodes : version = 1 → ∀ n ∈ db'.rowsOf "graph_node",
    ∃ g ∈ db.rowsOf "goal", isStrategic g ∧ refersTo g n
  noNodes : version ≠ 1 → db'.rowsOf "graph_node" = db.rowsOf "graph_node"
  fresh : ∀ name, name ∉ db.names → (version = 1 → name ≠ "graph_node") → db'.rowsOf name = []

variable {v : ℕ} {d : Database}

theorem kept_define {among : String → Prop} {upto : ℤ} {definitions : List Definition}
    (h : (Step.define upto definitions).effect seeds db = .ok db') :
    Sql.KeptAmong among db db' := by
  have hexec : Sql.execAll definitions db = .ok db' := h
  exact (Sql.execAll_kept hexec).keptAmong

theorem kept_seedGraph (h : seedGraph seeds db = .ok db') :
    Sql.KeptAmong (· ≠ "graph_node") db db' := by
  obtain ⟨mid, goals, hcreate, -, hinsert⟩ := seedGraph_eq_ok h
  rw [Sql.eq_of_insertAll hinsert]
  exact (Sql.execAll_kept hcreate).keptAmong.trans (Sql.keptAmong_append (by simp))

theorem kept_steps : ∀ step ∈ chain.steps, ∀ seeds db db', step.effect seeds db = .ok db' →
    Sql.KeptAmong (· ≠ "graph_node") db db' := by
  intro step hstep seeds db db' h
  simp only [chain, List.mem_cons, List.not_mem_nil, or_false] at hstep
  rcases hstep with rfl | rfl | rfl | rfl | rfl | rfl | rfl | rfl
  · exact kept_define h
  · exact kept_seedGraph h
  all_goals exact kept_define h

/-- The steps after the second only define tables. -/
theorem define_of_mem_drop {step : Step} (hv : 2 ≤ v) (h : step ∈ chain.steps.drop v) :
    ∃ upto definitions, step = .define upto definitions := by
  have hdrop : chain.steps.drop v = (chain.steps.drop 2).drop (v - 2) := by
    rw [List.drop_drop, show 2 + (v - 2) = v by omega]
  rw [hdrop] at h
  have hmem := List.mem_of_mem_drop h
  simp only [chain, List.drop_succ_cons, List.drop_zero, List.mem_cons, List.not_mem_nil,
    or_false] at hmem
  rcases hmem with rfl | rfl | rfl | rfl | rfl | rfl
  all_goals exact ⟨_, _, rfl⟩

theorem kept_of_upgrade (h : Upgrade ((chain.steps.drop v).map Step.effect) db d) :
    Sql.KeptAmong (fun name => 2 ≤ v ∨ name ≠ "graph_node") db d := by
  by_cases hv : 2 ≤ v
  · refine h.kept fun effect heffect seeds db db' hdone => ?_
    obtain ⟨step, hstep, rfl⟩ := List.mem_map.1 heffect
    obtain ⟨upto, definitions, rfl⟩ := define_of_mem_drop hv hstep
    exact kept_define hdone
  · have hkept := h.kept fun effect heffect seeds db db' hdone => by
      obtain ⟨step, hstep, rfl⟩ := List.mem_map.1 heffect
      exact kept_steps step (List.mem_of_mem_drop hstep) seeds db db' hdone
    exact ⟨hkept.version, fun name hname => hkept.tables name (hname.resolve_left hv),
      fun name hname => hkept.fresh name (hname.resolve_left hv)⟩

/-- The nodes seeded, in the end. -/
theorem exists_seeded (hv : v ≤ 1) (hdb : chain.ValidAt v db)
    (hfits : Fits (schema 8) d) (h : Upgrade ((chain.steps.drop v).map Step.effect) db d) :
    ∃ seeds goals, d.rowsOf "graph_node" = seedRows seeds goals ∧
      List.Forall₂ ReadsAs ((db.rowsOf "goal").filter isStrategic) goals := by
  obtain ⟨d₁, hfits₁, hkept₁, h⟩ : ∃ d₁, Fits (schema 1) d₁ ∧ Sql.Kept db d₁ ∧
      Upgrade ((chain.steps.drop 1).map Step.effect) d₁ d := by
    obtain rfl | rfl : v = 0 ∨ v = 1 := by omega
    · obtain ⟨seeds, d₁, h₁, h⟩ := h
      exact ⟨d₁, (leads_define defines_v1).fits seeds db d₁ hdb.fits h₁, Sql.execAll_kept h₁, h⟩
    · exact ⟨db, hdb.fits, .refl db, h⟩
  obtain ⟨seeds, d₂, h₂, h⟩ := h
  have hkept : Sql.KeptAmong (fun name => 2 ≤ 2 ∨ name ≠ "graph_node") d₂ d := kept_of_upgrade h
  have hfits₂ := leads_v2.fits seeds d₁ d₂ hfits₁ h₂
  obtain ⟨mid, goals, hcreate, hgoals, hinsert⟩ := seedGraph_eq_ok h₂
  obtain ⟨hfitsMid, hkeptMid, hfind, hpending⟩ := exists_created hfits₁ hcreate
  refine ⟨seeds, goals, ?_, ?_⟩
  · have hnodes : d.rowsOf "graph_node" = d₂.rowsOf "graph_node" :=
      hfits₂.rowsOf_eq hfits ⟨hkept.version, fun name _ => hkept.tables name (.inl le_rfl),
        fun name _ => hkept.fresh name (.inl le_rfl)⟩
        (show graphNodeTable ∈ schema 2 by simp [schema, graphSchema])
        (show graphNodeTable ∈ schema 8 by simp [schema, graphSchema])
    rw [hnodes, Sql.eq_of_insertAll hinsert,
      Sql.Database.rowsOf_of_find (Sql.Database.find_append hfind)]
    rfl
  · have hgoalMid : mid.rowsOf "goal" = d₁.rowsOf "goal" :=
      hfits₁.rowsOf_eq hfitsMid hkeptMid (goalTable_mem (by omega)) (goalTable_mem (by omega))
    have hgoal₁ : d₁.rowsOf "goal" = db.rowsOf "goal" := by
      by_cases hname : "goal" ∈ db.names
      · have hpos : 0 < v := by
          by_contra hzero
          obtain rfl : v = 0 := by omega
          rw [hdb.fits.names] at hname
          simp [chain, schema] at hname
        exact hdb.fits.rowsOf_eq hfits₁ hkept₁ (goalTable_mem hpos) (goalTable_mem (by omega))
      · rw [hkept₁.fresh _ trivial hname, Sql.Database.rowsOf_of_notMem hname]
    have hread := readPending_eq_ok.1 hgoals
    rw [hpending, hgoalMid, hgoal₁] at hread
    exact hread

/-- The rows of a table with a column added have its default. -/
theorem fallback_of_kept {shape : List Table} {t t' : Table} {column : Column}
    {among : String → Prop}
    (hdb : Fits shape db) (hd : Fits (schema 8) d) (hkept : Sql.KeptAmong among db d)
    (hamong : among t.name) (ht : t ∈ shape ∨ t.name ∉ db.names) (ht' : t' ∈ schema 8)
    (hname : t'.name = t.name) (hcolumns : t'.columns = t.columns ++ [column]) {r : Sql.Row}
    (hr : r ∈ d.rowsOf t.name) : r column.name = column.fallback := by
  rcases ht with ht | hnew
  · obtain ⟨rows, hfind⟩ := hdb.find ht
    obtain ⟨rows', hfind'⟩ := hd.find ht'
    obtain ⟨u, hu, hgrown⟩ := hkept.tables _ hamong _ hfind
    rw [hname, hu] at hfind'
    obtain rfl := Option.some.inj hfind'
    rw [Sql.Database.rowsOf_of_find hu] at hr
    exact hgrown.fallback hcolumns hr
  · rw [hkept.fresh _ hamong hnew] at hr
    simp at hr

theorem taskTable_mem (hv : v < 5) : taskTable ∈ schema v ∨
    taskTable.name ∉ (schema v).map Table.name := by
  obtain rfl | rfl | rfl | rfl | rfl : v = 0 ∨ v = 1 ∨ v = 2 ∨ v = 3 ∨ v = 4 := by omega
  · exact .inr (by decide)
  all_goals exact .inl (by simp [schema, firstTables])

theorem mcpArtifactTable_mem (hv : v < 8) : mcpArtifactTable ∈ schema v ∨
    mcpArtifactTable.name ∉ (schema v).map Table.name := by
  obtain rfl | rfl | rfl | rfl | rfl | rfl | rfl | rfl : v = 0 ∨ v = 1 ∨ v = 2 ∨ v = 3 ∨ v = 4 ∨
    v = 5 ∨ v = 6 ∨ v = 7 := by omega
  · exact .inr (by decide)
  · exact .inr (by decide)
  · exact .inr (by decide)
  all_goals exact .inl (by simp [schema, mcpTables])

theorem graphNode_schema (hv : v ≤ 1) : "graph_node" ∉ (schema v).map Table.name := by
  obtain rfl | rfl : v = 0 ∨ v = 1 := by omega
  all_goals decide

theorem graphNodeTable_mem (hv : 2 ≤ v) : graphNodeTable ∈ schema v := by
  obtain ⟨v, rfl⟩ : ∃ v', v = v' + 2 := ⟨v - 2, by omega⟩
  rcases v with _ | _ | _ | _ | _ | _ | v <;> simp [schema, graphSchema]

/-- From an empty database there is nothing to seed. -/
theorem graphNode_of_empty (hdb : chain.ValidAt 0 db) (hfits : Fits (schema 8) d)
    (h : Upgrade (chain.steps.map Step.effect) db d) : d.rowsOf "graph_node" = [] := by
  obtain ⟨seeds, goals, hrows, hread⟩ := exists_seeded (by omega) hdb hfits h
  have hnone : db.rowsOf "goal" = [] := by
    refine Sql.Database.rowsOf_of_notMem ?_
    rw [hdb.fits.names]
    simp [chain, schema]
  rw [hnone, List.filter_nil, List.forall₂_nil_left_iff] at hread
  rw [hrows, hread]
  rfl

theorem upgraded_of_upgrade (hdb : chain.ValidAt v db)
    (hvalid : chain.ValidAt schemaVersion (d.setVersion schemaVersion))
    (h : Upgrade ((chain.steps.drop v).map Step.effect) db d) :
    Upgraded v db (d.setVersion schemaVersion) := by
  have hkept := kept_of_upgrade h
  have hold : db.names = (schema v).map Table.name := hdb.fits.names
  have hfits : Fits (schema 8) (d.setVersion schemaVersion) := hvalid.fits
  have hsound : Fits (schema 8) d := ⟨hfits.sound.setVersion d.userVersion, hfits.shape⟩
  have hnames (name : String) (hname : name ∈ db.names) : 2 ≤ v ∨ name ≠ "graph_node" := by
    by_contra hnot
    rw [not_or, not_not] at hnot
    obtain ⟨hv, rfl⟩ := hnot
    rw [hold] at hname
    exact graphNode_schema (by omega) hname
  refine ⟨hvalid, fun name t ht => ?_, fun hv r hr => ?_, fun hv r hr => ?_, fun hv g hg hs => ?_,
    fun hv n hn => ?_, fun hv => ?_, fun name hname hne => ?_⟩
  · refine hkept.tables name (hnames name ?_) t ht
    by_contra hname
    rw [Sql.Database.find_eq_none.2 hname] at ht
    simp at ht
  · have htask := taskTable_mem hv
    rw [← hold] at htask
    have hnew : taskTableV5 ∈ schema 8 := by simp [schema, firstTables]
    have hcolumns : taskTableV5.columns = taskTable.columns ++ [priorityColumn] := rfl
    exact fallback_of_kept hdb.fits hsound hkept (.inr (by decide)) htask hnew rfl hcolumns hr
  · have hartifact := mcpArtifactTable_mem hv
    rw [← hold] at hartifact
    have hnew : mcpArtifactTableV8 ∈ schema 8 := by simp [schema, mcpTables]
    have hcolumns : mcpArtifactTableV8.columns = mcpArtifactTable.columns ++ [truncatedColumn] :=
      rfl
    exact fallback_of_kept hdb.fits hsound hkept (.inr (by decide)) hartifact hnew rfl hcolumns hr
  · obtain ⟨seeds, goals, hrows, hread⟩ := exists_seeded (by omega) hdb hsound h
    have hdistinct := goals_distinct (by omega) hdb.fits
    have hpending : g ∈ (db.rowsOf "goal").filter isStrategic := List.mem_filter.2 ⟨hg, hs⟩
    show ∃ n, (d.rowsOf "graph_node").filter (refersTo g) = [n] ∧ _
    rw [hrows]
    exact filter_seedRows hread (hdistinct.filter _) hpending
  · obtain ⟨seeds, goals, hrows, hread⟩ := exists_seeded (by omega) hdb hsound h
    have hmem : n ∈ d.rowsOf "graph_node" := hn
    rw [hrows] at hmem
    obtain ⟨k, x, hx, rfl⟩ := mem_seedRows hmem
    obtain ⟨g, hg, hreads⟩ := exists_of_forall₂ hread hx
    obtain ⟨hg, hs⟩ := List.mem_filter.1 hg
    refine ⟨g, hg, hs, ?_⟩
    simp [refersTo, seedRow, Sql.rowOf, hreads.1]
  · show d.rowsOf "graph_node" = _
    by_cases hzero : v = 0
    · subst hzero
      rw [graphNode_of_empty hdb hsound h, Sql.Database.rowsOf_of_notMem]
      intro hname
      exact (hnames _ hname).elim (by omega) fun hne => hne rfl
    · have hv₂ : 2 ≤ v := by omega
      exact hdb.fits.rowsOf_eq hsound ⟨hkept.version, fun name _ => hkept.tables name (.inl hv₂),
        fun name _ => hkept.fresh name (.inl hv₂)⟩ (graphNodeTable_mem hv₂)
        (graphNodeTable_mem (v := 8) (by omega))
  · by_cases hnode : 2 ≤ v ∨ name ≠ "graph_node"
    · exact hkept.fresh name hnode hname
    · rw [not_or, not_not] at hnode
      obtain ⟨hv, rfl⟩ := hnode
      obtain rfl : v = 0 := by
        by_contra hpos
        exact hne (by omega) rfl
      have hempty : d.rowsOf "graph_node" = [] := graphNode_of_empty hdb hsound h
      exact hempty

/-- The steps up to the second, too, take tables that are the same but for what is generated to such
tables. -/
theorem respects_steps : ∀ step ∈ chain.steps, step.effect.Respects SameButSeeds := by
  intro step hstep
  simp only [chain, List.mem_cons, List.not_mem_nil, or_false] at hstep
  rcases hstep with rfl | rfl | rfl | rfl | rfl | rfl | rfl | rfl
  · exact respects_define (by decide)
  · exact respects_seedGraph
  all_goals exact respects_define (by decide)

theorem same_refl (version : ℕ) (l : List Table) : Same version l l := by
  unfold Same
  split_ifs
  · exact rfl
  · rfl

theorem respects_drop {step : Step} (hstep : step ∈ chain.steps.drop v) :
    step.effect.Respects (Same v) := by
  by_cases hv : v ≤ 1
  · have hsame : Same v = SameButSeeds := by
      funext a b
      rw [Same, if_pos hv]
    rw [hsame]
    exact respects_steps step (List.mem_of_mem_drop hstep)
  · have hsame : Same v = Eq := by
      funext a b
      rw [Same, if_neg hv]
    obtain ⟨upto, definitions, rfl⟩ := define_of_mem_drop (by omega) hstep
    rw [hsame]
    exact BuilderPro.respects_define

theorem carries (hv : v ≤ schemaVersion) (hdb : chain.ValidAt v db) :
    chain.Carries schemaVersion (Upgraded v) (Same v) v db := by
  refine Chain.carries hdb hv (fun step hstep => respects_drop hstep) (same_refl v)
    (fun hcurrent => ?_) fun db' hvalid d hd h => ?_
  · obtain rfl : v = schemaVersion := hcurrent
    have hsame : db.setVersion schemaVersion = db := by
      rw [Sql.Database.setVersion, ← hdb.userVersion]
    have hself := upgraded_of_upgrade (d := db) hdb (by rwa [hsame]) rfl
    rwa [hsame] at hself
  · subst hd
    exact upgraded_of_upgrade hdb hvalid h

end OrchdSchema

end BuilderPro
