import BuilderPro.Lib.SqlTables

/-!
# Statements that define tables

What a statement that defines tables does to the rows that are there is to give the added columns
their defaults (`Kept`), and a sound database stays sound (`Definition.exec_sound`).
-/

namespace Sql

variable {db db' mid : Database} {t t' : Table} {name table : String} {r s x : Row}
  {column : Column} {checks : List Cond} {k : Constraint} {f : Table → Table} {d : Definition}

/-- A table with columns added: its rows are as they were, with the defaults of the columns
added. -/
def Table.Grown (t t' : Table) : Prop :=
  ∃ added : List Column, t'.columns = t.columns ++ added ∧
    (∀ column ∈ added, column.name ∉ t.columns.map Column.name) ∧
    List.Forall₂ (fun r r' : Row =>
      (∀ name, name ∉ added.map Column.name → r' name = r name) ∧
        ∀ column ∈ added, r' column.name = column.fallback) t.rows t'.rows

theorem Table.Grown.refl (t : Table) : t.Grown t := by
  refine ⟨[], by simp, by simp, ?_⟩
  exact List.forall₂_same.2 fun r _ => ⟨fun _ _ => rfl, by simp⟩

theorem Table.Grown.trans {t'' : Table} (h : t.Grown t') (h' : t'.Grown t'') : t.Grown t'' := by
  obtain ⟨added, hcolumns, hnew, hrows⟩ := h
  obtain ⟨added', hcolumns', hnew', hrows'⟩ := h'
  rw [hcolumns, List.map_append] at hnew'
  refine ⟨added ++ added', by rw [hcolumns', hcolumns, List.append_assoc], fun column hc => ?_, ?_⟩
  · rcases List.mem_append.1 hc with hc | hc
    · exact hnew column hc
    · exact fun h => hnew' column hc (List.mem_append_left _ h)
  · have htrans : ∀ {l l' l'' : List Row}, List.Forall₂ (fun r r' : Row =>
          (∀ name, name ∉ added.map Column.name → r' name = r name) ∧
            ∀ column ∈ added, r' column.name = column.fallback) l l' →
        List.Forall₂ (fun r r' : Row =>
          (∀ name, name ∉ added'.map Column.name → r' name = r name) ∧
            ∀ column ∈ added', r' column.name = column.fallback) l' l'' →
        List.Forall₂ (fun r r' : Row =>
          (∀ name, name ∉ (added ++ added').map Column.name → r' name = r name) ∧
            ∀ column ∈ added ++ added', r' column.name = column.fallback) l l'' := by
      intro l l' l'' hl
      induction hl generalizing l'' with
      | nil =>
        intro hl'
        rcases hl' with _ | _
        exact .nil
      | cons hr _ ih =>
        intro hl'
        rcases hl' with _ | ⟨hr', hl'⟩
        refine .cons ⟨fun name hname => ?_, fun column hc => ?_⟩ (ih hl')
        · rw [List.map_append, List.mem_append, not_or] at hname
          rw [hr'.1 name hname.2, hr.1 name hname.1]
        · rcases List.mem_append.1 hc with hc | hc
          · have hold : column.name ∉ added'.map Column.name := by
              intro h
              obtain ⟨column', hc', heq⟩ := List.mem_map.1 h
              exact hnew' column' hc'
                (List.mem_append_right _ (heq ▸ List.mem_map_of_mem hc))
            rw [hr'.1 _ hold, hr.2 column hc]
          · exact hr'.2 column hc
    exact htrans hrows hrows'

theorem Table.Grown.rows_eq (h : t.Grown t') (hcolumns : t'.columns = t.columns) :
    t'.rows = t.rows := by
  obtain ⟨added, hadded, -, hrows⟩ := h
  obtain rfl : added = [] := by
    rw [hcolumns] at hadded
    simpa using hadded
  have hsame : List.Forall₂ Eq t.rows t'.rows :=
    hrows.imp fun r r' hr => (funext fun name => hr.1 name (by simp)).symm
  rw [List.forall₂_eq_eq_eq] at hsame
  exact hsame.symm

theorem Table.Grown.fallback (h : t.Grown t') (hcolumns : t'.columns = t.columns ++ [column])
    (hr : r ∈ t'.rows) : r column.name = column.fallback := by
  obtain ⟨added, hadded, -, hrows⟩ := h
  obtain rfl : added = [column] := List.append_cancel_left (hadded.symm.trans hcolumns)
  have hfilled : ∀ {l l' : List Row}, List.Forall₂ (fun r r' : Row =>
      (∀ name, name ∉ [column].map Column.name → r' name = r name) ∧
        ∀ c ∈ [column], r' c.name = c.fallback) l l' →
      ∀ r ∈ l', r column.name = column.fallback := by
    intro l l' hl
    induction hl with
    | nil => simp
    | cons hfirst _ ih =>
      intro r hr
      rcases List.mem_cons.1 hr with rfl | hr
      · exact hfirst.2 column (by simp)
      · exact ih r hr
  exact hfilled hrows r hr

/-- What tables there were of some names is still there, and the others of these names are empty. -/
structure KeptAmong (among : String → Prop) (db db' : Database) : Prop where
  version : db'.userVersion = db.userVersion
  tables : ∀ name, among name → ∀ t, db.find name = some t →
    ∃ t', db'.find name = some t' ∧ t.Grown t'
  fresh : ∀ name, among name → name ∉ db.names → db'.rowsOf name = []

abbrev Kept : Database → Database → Prop := KeptAmong fun _ => True

section Kept

variable {among : String → Prop}

theorem KeptAmong.refl (db : Database) : KeptAmong among db db :=
  ⟨rfl, fun _ _ t h => ⟨t, h, .refl t⟩, fun _ _ h => Database.rowsOf_of_notMem h⟩

theorem KeptAmong.trans {db'' : Database} (h : KeptAmong among db db')
    (h' : KeptAmong among db' db'') : KeptAmong among db db'' := by
  refine ⟨h'.version.trans h.version, fun name hamong t ht => ?_, fun name hamong hname => ?_⟩
  · obtain ⟨t', ht', hgrown⟩ := h.tables name hamong t ht
    obtain ⟨t'', ht'', hgrown'⟩ := h'.tables name hamong t' ht'
    exact ⟨t'', ht'', hgrown.trans hgrown'⟩
  · by_cases hmid : name ∈ db'.names
    · rcases ht' : db'.find name with _ | t'
      · exact absurd hmid (Database.find_eq_none.1 ht')
      · obtain ⟨t'', ht'', added, -, -, hrows⟩ := h'.tables name hamong t' ht'
        have hempty := h.fresh name hamong hname
        rw [Database.rowsOf_of_find ht'] at hempty
        rw [hempty, List.forall₂_nil_left_iff] at hrows
        rw [Database.rowsOf_of_find ht'', hrows]
    · exact h'.fresh name hamong hmid

theorem Kept.keptAmong (h : Kept db db') : KeptAmong among db db' :=
  ⟨h.version, fun name _ t ht => h.tables name trivial t ht,
    fun name _ hname => h.fresh name trivial hname⟩

end Kept

theorem Table.grown_addColumn (h : column.name ∉ t.columns.map Column.name) :
    t.Grown (t.addColumn column checks) := by
  refine ⟨[column], rfl, by simpa using h, ?_⟩
  rw [Table.addColumn, List.forall₂_map_right_iff]
  refine List.forall₂_same.2 fun r _ => ⟨fun name hname => ?_, fun c hc => ?_⟩
  · have hne : name ≠ column.name := by simpa using hname
    exact Function.update_of_ne hne _ _
  · obtain rfl := List.mem_singleton.1 hc
    exact Function.update_self _ _ _

theorem Definition.exec_kept (h : d.exec db = .ok db') : Kept db db' := by
  rcases d with ⟨ifNotExists, t⟩ | _ | ⟨table, column, checks⟩
  · simp only [exec] at h
    split_ifs at h with hname hif
    · obtain rfl := Except.ok.inj h
      exact .refl db
    · obtain rfl := Except.ok.inj h
      refine ⟨rfl, fun name _ u hu => ⟨u, ?_, .refl u⟩, fun name _ hnew => ?_⟩
      · simp only [Database.find, List.find?_append] at hu ⊢
        rw [hu]
        rfl
      · have hnone := Database.find_eq_none.2 hnew
        simp only [Database.find] at hnone
        simp only [Database.rowsOf, Database.find, List.find?_append, hnone, Option.none_or]
        by_cases hsame : t.name = name <;> simp [hsame]
  · obtain rfl := Except.ok.inj h
    exact .refl db
  · simp only [exec] at h
    rcases ht : db.find table with _ | t <;> rw [ht] at h
    · simp at h
    · simp only at h
      split_ifs at h with hcolumn hrows
      obtain rfl := Except.ok.inj h
      have hfind (name : String) : (db.alter table (Table.addColumn column checks)).find name =
          (db.find name).map fun t => if name = table then t.addColumn column checks else t :=
        Database.find_alter (Table.name_addColumn column checks)
      refine ⟨rfl, fun name _ u hu => ?_, fun name _ hnew => ?_⟩
      · rw [hfind, hu]
        refine ⟨_, rfl, ?_⟩
        split_ifs with hname
        · obtain rfl : t = u := by
            rw [← hname, hu] at ht
            exact (Option.some.inj ht).symm
          exact Table.grown_addColumn hcolumn
        · exact .refl u
      · rw [Database.rowsOf, hfind, Database.find_eq_none.2 hnew]
        rfl

theorem execAll_kept {definitions : List Definition} (h : execAll definitions db = .ok db') :
    Kept db db' := by
  induction definitions generalizing db with
  | nil =>
    obtain rfl := Except.ok.inj h
    exact .refl db
  | cons d l ih =>
    rw [execAll, List.foldlM_cons] at h
    rcases hd : d.exec db with e | mid <;> rw [hd] at h
    · simp [Bind.bind, Except.bind] at h
    · exact (Definition.exec_kept hd).trans (ih h)

/-! ### Constraints that stay met -/

theorem Constraint.Admits.congr (h : k.Admits db r) (hr : ∀ c ∈ k.columns, s c = r c)
    (hdb : ∀ c table key, k = .references c table key →
      ∀ x ∈ db.rowsOf table, ∃ y ∈ db'.rowsOf table, y key = x key) : k.Admits db' s := by
  rcases k with a | ⟨columns, among⟩ | ⟨c, table, key⟩
  · have heq : a.eval s = a.eval r := Cond.eval_congr hr
    rw [Admits, heq]
    exact h
  · trivial
  · have hc : s c = r c := hr c (by simp [columns])
    rcases h with hnull | ⟨x, hx, hkey⟩
    · exact .inl (hc.trans hnull)
    · obtain ⟨y, hy, hyx⟩ := hdb c table key rfl x hx
      exact .inr ⟨y, hy, by rw [hyx, hkey, hc]⟩

theorem Constraint.Apart.congr {r' s' : Row} (h : k.Apart r s) (hr : ∀ c ∈ k.columns, r' c = r c)
    (hs : ∀ c ∈ k.columns, s' c = s c) : k.Apart r' s' := by
  rcases k with a | ⟨columns, among⟩ | ⟨c, table, key⟩
  · trivial
  · intro hamong
    obtain ⟨c, hc, happart⟩ := h fun a ha => by
      obtain ⟨hra, hsa⟩ := hamong a ha
      have hcols : ∀ c ∈ a.columns, c ∈ (unique columns among).columns := by
        intro c hc
        simp [Constraint.columns, ha, hc]
      rw [Cond.eval_congr fun c hc => hr c (hcols c hc)] at hra
      rw [Cond.eval_congr fun c hc => hs c (hcols c hc)] at hsa
      exact ⟨hra, hsa⟩
    have hmem : c ∈ (unique columns among).columns := by simp [Constraint.columns, hc]
    exact ⟨c, hc, by rw [hr c hmem, hs c hmem]; exact happart⟩
  · trivial

theorem Database.Sound.setVersion (h : db.Sound) (version : ℤ) : (db.setVersion version).Sound := by
  refine ⟨h.nodup, fun t ht => ⟨fun r hr => ?_, (h.tables t ht).apart⟩⟩
  obtain ⟨hcolumns, hconstraints⟩ := (h.tables t ht).admits r hr
  exact ⟨hcolumns, fun k hk => (hconstraints k hk).congr (fun _ _ => rfl)
    fun _ _ _ _ x hx => ⟨x, hx, rfl⟩⟩

theorem Row.fill_of_ne {c : String} (h : c ≠ column.name) : r.fill column c = r c :=
  Function.update_of_ne h _ _

theorem Row.fill_self : r.fill column column.name = column.fallback := Function.update_self _ _ _

theorem Table.Sound.addColumn (ht : t.Sound db)
    (hcolumn : column.name ∉ t.columns.map Column.name)
    (hread : ∀ k ∈ t.constraints, column.name ∉ k.columns)
    (hrows : ∀ r ∈ t.rows, column.Admits (r.fill column) ∧
      ∀ a ∈ checks, a.eval (r.fill column) ≠ some false)
    (hdb : ∀ name key, key ≠ column.name →
      ∀ x ∈ db.rowsOf name, ∃ y ∈ db'.rowsOf name, y key = x key) :
    (t.addColumn column checks).Sound db' := by
  have hfill (r : Row) (k : Constraint) (hk : k ∈ t.constraints) :
      ∀ c ∈ k.columns, r.fill column c = r c := by
    intro c hc
    refine Row.fill_of_ne ?_
    rintro rfl
    exact hread k hk hc
  constructor
  · intro r' hr'
    obtain ⟨r, hr, rfl⟩ := List.mem_map.1 hr'
    constructor
    · intro c hc
      rcases List.mem_append.1 hc with hc | hc
      · have hne : c.name ≠ column.name := fun h => hcolumn (h ▸ List.mem_map_of_mem hc)
        have hold := (ht.admits r hr).columns c hc
        unfold Column.Admits at hold ⊢
        rw [Row.fill_of_ne hne]
        exact hold
      · rw [List.mem_singleton.1 hc]
        exact (hrows r hr).1
    · intro k hk
      rcases List.mem_append.1 hk with hk | hk
      · refine ((ht.admits r hr).constraints k hk).congr (hfill r k hk) ?_
        rintro c table key rfl x hx
        refine hdb table key ?_ x hx
        rintro rfl
        exact hread _ hk (by simp [Constraint.columns])
      · obtain ⟨a, ha, rfl⟩ := List.mem_map.1 hk
        exact (hrows r hr).2 a ha
  · intro k hk
    simp only [Table.addColumn, List.pairwise_map]
    rcases List.mem_append.1 hk with hk | hk
    · exact (ht.apart k hk).imp fun h => h.congr (hfill _ k hk) (hfill _ k hk)
    · obtain ⟨a, -, rfl⟩ := List.mem_map.1 hk
      exact List.pairwise_of_forall fun _ _ => trivial

theorem Definition.exec_sound (hdb : db.Sound) (hread : d.Unread db.tables)
    (h : d.exec db = .ok db') : db'.Sound := by
  rcases d with ⟨ifNotExists, t⟩ | _ | ⟨table, column, checks⟩
  · simp only [exec] at h
    split_ifs at h with hname hif
    · obtain rfl := Except.ok.inj h
      exact hdb
    · obtain rfl := Except.ok.inj h
      have hrows (name : String) (x : Row) (hx : x ∈ db.rowsOf name) :
          x ∈ Database.rowsOf ⟨db.tables ++ [{ t with rows := [] }], db.userVersion⟩ name := by
        rcases hu : db.find name with _ | u
        · simp [Database.rowsOf, hu] at hx
        · rw [Database.rowsOf_of_find hu] at hx
          rw [Database.find] at hu
          simpa [Database.rowsOf, Database.find, List.find?_append, hu] using hx
      refine ⟨?_, fun u hu => ?_⟩
      · have hnodup := List.Nodup.concat hname hdb.nodup
        rw [List.concat_eq_append] at hnodup
        simpa [Database.names] using hnodup
      · rcases List.mem_append.1 hu with hu | hu
        · refine ⟨fun r hr => ?_, (hdb.tables u hu).apart⟩
          obtain ⟨hcolumns, hconstraints⟩ := (hdb.tables u hu).admits r hr
          exact ⟨hcolumns, fun k hk => (hconstraints k hk).congr (fun _ _ => rfl)
            fun _ name _ _ x hx => ⟨x, hrows name x hx, rfl⟩⟩
        · rw [List.mem_singleton.1 hu]
          exact ⟨by simp, by simp⟩
  · obtain rfl := Except.ok.inj h
    exact hdb
  · simp only [exec] at h
    rcases ht : db.find table with _ | t <;> rw [ht] at h
    · simp at h
    · simp only at h
      split_ifs at h with hcolumn hrows
      obtain rfl := Except.ok.inj h
      have hkept (name key : String) (hkey : key ≠ column.name) (x : Row)
          (hx : x ∈ db.rowsOf name) : ∃ y ∈ (db.alter table
            (Table.addColumn column checks)).rowsOf name, y key = x key := by
        by_cases hname : name = table
        · subst hname
          rw [Database.rowsOf_of_find ht] at hx
          have hfind : (db.alter name (Table.addColumn column checks)).find name =
              some (t.addColumn column checks) := by
            rw [Database.find_alter (Table.name_addColumn column checks), ht]
            simp
          exact ⟨x.fill column, by
            rw [Database.rowsOf_of_find hfind]
            exact List.mem_map_of_mem hx, Row.fill_of_ne hkey⟩
        · exact ⟨x, by
            rwa [Database.rowsOf_alter_of_ne (Table.name_addColumn column checks) hname], rfl⟩
      refine ⟨?_, fun u' hu' => ?_⟩
      · rw [Database.names_alter (Table.name_addColumn column checks)]
        exact hdb.nodup
      obtain ⟨u, hu, rfl⟩ := List.mem_map.1 hu'
      split_ifs with hname
      · obtain rfl : t = u := by
          have hfind := Database.find_of_mem hdb.nodup hu
          rw [hname, ht] at hfind
          exact Option.some.inj hfind
        exact (hdb.tables t hu).addColumn hcolumn (hread t hu) hrows hkept
      · refine ⟨fun r hr => ?_, (hdb.tables u hu).apart⟩
        obtain ⟨hcolumns, hconstraints⟩ := (hdb.tables u hu).admits r hr
        refine ⟨hcolumns, fun k hk => (hconstraints k hk).congr (fun _ _ => rfl) ?_⟩
        rintro c name key rfl x hx
        refine hkept name key ?_ x hx
        rintro rfl
        exact hread u hu _ hk (by simp [Constraint.columns])

end Sql
