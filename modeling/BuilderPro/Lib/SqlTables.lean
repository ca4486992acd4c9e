import BuilderPro.Lib.Sql

/-!
# Tables by name

What is found under a table's name after a table is altered, and what a statement does not read: the
version (`execAll_setVersion`), and the rows of a table that it does not alter
(`execAll_mapRows`).
-/

namespace Sql

variable {db db' mid : Database} {t t' : Table} {name table : String} {r s x : Row}
  {column : Column} {checks : List Cond} {k : Constraint} {f : Table → Table} {d : Definition}

namespace Database

theorem mem_of_find (h : db.find name = some t) : t ∈ db.tables := List.mem_of_find?_eq_some h

theorem find_eq_none : db.find name = none ↔ name ∉ db.names := by
  simp [find, names]

theorem find_of_mem (hdb : db.names.Nodup) (ht : t ∈ db.tables) : db.find t.name = some t := by
  obtain ⟨tables, version⟩ := db
  simp only [names, find] at hdb ht ⊢
  induction tables with
  | nil => simp at ht
  | cons u l ih =>
    rw [List.map_cons, List.nodup_cons] at hdb
    rcases List.mem_cons.1 ht with rfl | ht
    · simp
    · have hne : u.name ≠ t.name := fun h => hdb.1 (h ▸ List.mem_map_of_mem ht)
      simp [hne, ih hdb.2 ht]

theorem rowsOf_of_find (h : db.find name = some t) : db.rowsOf name = t.rows := by
  rw [rowsOf, h]
  rfl

theorem rowsOf_of_notMem (h : name ∉ db.names) : db.rowsOf name = [] := by
  rw [rowsOf, find_eq_none.2 h]
  rfl

theorem find_alter (hf : ∀ t, (f t).name = t.name) :
    (db.alter table f).find name = (db.find name).map fun t => if name = table then f t else t := by
  simp only [find, alter, List.find?_map]
  have hname : ((fun t : Table => decide (t.name = name)) ∘
      fun t => if t.name = table then f t else t) = fun t => decide (t.name = name) := by
    funext t
    by_cases h : t.name = table <;> simp [h, hf]
  rw [hname]
  refine Option.map_congr fun t ht => ?_
  obtain rfl : t.name = name := by simpa using List.find?_some ht
  rfl

theorem names_alter (hf : ∀ t, (f t).name = t.name) : (db.alter table f).names = db.names := by
  simp only [names, alter, List.map_map]
  refine List.map_congr_left fun t _ => ?_
  by_cases h : t.name = table <;> simp [h, hf]

theorem rowsOf_alter_of_ne (hf : ∀ t, (f t).name = t.name) (h : name ≠ table) :
    (db.alter table f).rowsOf name = db.rowsOf name := by
  rw [rowsOf, rowsOf, find_alter hf]
  simp [h]

end Database

theorem Table.name_addColumn (column : Column) (checks : List Cond) (t : Table) :
    (t.addColumn column checks).name = t.name := rfl

theorem Table.name_append (rows : List Row) (t : Table) : (t.append rows).name = t.name := rfl

theorem Database.names_eq_shape (db : Database) : db.names = db.shape.map Table.name := by
  simp [Database.names, Database.shape, Function.comp_def]

theorem Database.find_of_shape (hdb : db.names.Nodup) (ht : t ∈ db.shape) :
    ∃ rows, db.find t.name = some { t with rows := rows } := by
  obtain ⟨u, hu, rfl⟩ := List.mem_map.1 ht
  exact ⟨u.rows, Database.find_of_mem hdb hu⟩

theorem Database.Sound.admits (hdb : db.Sound) (ht : db.find name = some t)
    (hr : r ∈ db.rowsOf name) : t.Admits db r := by
  rw [Database.rowsOf_of_find ht] at hr
  exact (hdb.tables t (Database.mem_of_find ht)).admits r hr

/-- The values of a unique column that is never `NULL` are distinct. -/
theorem Database.Sound.pairwise_ne (hdb : db.Sound) (ht : db.find name = some t) {c : String}
    (hunique : .unique [c] none ∈ t.constraints) (hcolumn : column ∈ t.columns)
    (hname : column.name = c) (hnull : column.notNull = true) :
    (db.rowsOf name).Pairwise fun r s => r c ≠ s c := by
  have hsound := hdb.tables t (Database.mem_of_find ht)
  have hne (r : Row) (hr : r ∈ t.rows) : r c ≠ .null := by
    rw [← hname]
    exact ((hsound.admits r hr).columns column hcolumn).2 hnull
  rw [Database.rowsOf_of_find ht]
  refine (hsound.apart _ hunique).imp_of_mem fun {r s} hr hs happart => ?_
  obtain ⟨c', hc', h⟩ := happart fun a ha => by simp at ha
  obtain rfl := List.mem_singleton.1 hc'
  rcases h with h | h | h
  · exact absurd h (hne r hr)
  · exact absurd h (hne s hs)
  · exact h

theorem filter_column {rows : List Row} {c : String} (h : rows.Pairwise fun r s => r c ≠ s c)
    (hr : r ∈ rows) : rows.filter (fun s => s c = r c) = [r] := by
  induction rows with
  | nil => simp at hr
  | cons first rows ih =>
    obtain ⟨hfirst, hrest⟩ := List.pairwise_cons.1 h
    rcases List.mem_cons.1 hr with rfl | hr
    · have hnone : rows.filter (fun s => s c = r c) = [] := by
        rw [List.filter_eq_nil_iff]
        intro s hs heq
        have hsame : s c = r c := by simpa using heq
        exact hfirst s hs hsame.symm
      simp [hnone]
    · have hne : ¬first c = r c := hfirst r hr
      rw [List.filter_cons, if_neg (by simpa using hne), ih hrest hr]

/-! ### The version is not read -/

theorem admits_setVersion {version : ℤ} : t.Admits (db.setVersion version) r ↔ t.Admits db r := by
  constructor
  · rintro ⟨hcolumns, hconstraints⟩
    refine ⟨hcolumns, fun k hk => ?_⟩
    have h := hconstraints k hk
    rcases k with _ | _ | _ <;> exact h
  · rintro ⟨hcolumns, hconstraints⟩
    refine ⟨hcolumns, fun k hk => ?_⟩
    have h := hconstraints k hk
    rcases k with _ | _ | _ <;> exact h

theorem Definition.exec_setVersion {version : ℤ} :
    d.exec (db.setVersion version) = (d.exec db).map fun db => db.setVersion version := by
  rcases d with ⟨ifNotExists, t⟩ | _ | ⟨table, column, checks⟩
  · have hnames : (db.setVersion version).names = db.names := rfl
    simp only [exec, hnames]
    by_cases hname : t.name ∈ db.names
    · by_cases hif : ifNotExists <;> simp [hname, hif, Except.map]
    · simp [hname, Except.map, Database.setVersion]
  · rfl
  · have hfind : (db.setVersion version).find table = db.find table := rfl
    simp only [exec, hfind]
    rcases db.find table with _ | t
    · rfl
    · simp only
      split_ifs <;> rfl

theorem execAll_setVersion {definitions : List Definition} {version : ℤ} :
    execAll definitions (db.setVersion version) =
      (execAll definitions db).map fun db => db.setVersion version := by
  induction definitions generalizing db with
  | nil => rfl
  | cons d l ih =>
    simp only [execAll, List.foldlM_cons, Definition.exec_setVersion]
    rcases d.exec db with e | mid
    · rfl
    · exact ih

theorem insert_setVersion {version : ℤ} : insert table r (db.setVersion version) =
    (insert table r db).map fun db => db.setVersion version := by
  have hfind : (db.setVersion version).find table = db.find table := rfl
  simp only [insert, hfind, admits_setVersion]
  rcases db.find table with _ | t
  · rfl
  · simp only
    split_ifs <;> rfl

theorem insertAll_setVersion {rows : List Row} {version : ℤ} :
    insertAll table rows (db.setVersion version) =
      (insertAll table rows db).map fun db => db.setVersion version := by
  induction rows generalizing db with
  | nil => rfl
  | cons r l ih =>
    simp only [insertAll, List.foldlM_cons, insert_setVersion]
    rcases insert table r db with e | mid
    · rfl
    · exact ih

/-! ### The rows of a table that is not altered are not read -/

def Table.mapRows (g : Row → Row) (t : Table) : Table := { t with rows := t.rows.map g }

theorem Table.name_mapRows (g : Row → Row) (t : Table) : (t.mapRows g).name = t.name := rfl

/-- The database with the rows of a table changed. -/
def Database.mapRows (table : String) (g : Row → Row) (db : Database) : Database :=
  db.alter table (Table.mapRows g)

/-- A definition that does not alter a table. -/
def Definition.Spares (name : String) : Definition → Prop
  | addColumn table _ _ => table ≠ name
  | _ => True

instance (name : String) : DecidablePred (Definition.Spares name)
  | .addColumn table _ _ => inferInstanceAs (Decidable (table ≠ name))
  | .createTable _ _ | .createIndex => .isTrue trivial

theorem Definition.exec_mapRows {g : Row → Row} (hd : d.Spares name) :
    d.exec (db.mapRows name g) = (d.exec db).map (Database.mapRows name g) := by
  have hnames : (db.mapRows name g).names = db.names :=
    Database.names_alter (Table.name_mapRows g)
  rcases d with ⟨ifNotExists, t⟩ | _ | ⟨table, column, checks⟩
  · simp only [exec, hnames]
    by_cases hname : t.name ∈ db.names
    · by_cases hif : ifNotExists <;> simp [hname, hif, Except.map]
    · have hnew : (if t.name = name then Table.mapRows g { t with rows := [] } else
          { t with rows := [] }) = { t with rows := [] } := by
        split_ifs <;> rfl
      simp only [hname, if_false, Except.map, Database.mapRows, Database.alter, List.map_append,
        List.map_singleton]
      rw [hnew]
  · rfl
  · have hne : table ≠ name := hd
    have hfind : (db.mapRows name g).find table = db.find table := by
      rw [Database.mapRows, Database.find_alter (Table.name_mapRows g)]
      simp [hne]
    simp only [exec, hfind]
    rcases db.find table with _ | t
    · rfl
    · simp only
      split_ifs
      · rfl
      · simp only [Except.map, Database.mapRows, Database.alter, List.map_map]
        congr 2
        refine List.map_congr_left fun u _ => ?_
        by_cases hname : u.name = name
        · have hother : ¬u.name = table := fun h => hne (h.symm.trans hname)
          simp [hname, hne.symm, Table.mapRows]
        · by_cases hother : u.name = table <;> simp [hname, hother, Table.addColumn, hne]
      · rfl

theorem execAll_mapRows {definitions : List Definition} {g : Row → Row}
    (h : ∀ d ∈ definitions, d.Spares name) : execAll definitions (db.mapRows name g) =
      (execAll definitions db).map (Database.mapRows name g) := by
  induction definitions generalizing db with
  | nil => rfl
  | cons d l ih =>
    simp only [execAll, List.foldlM_cons, Definition.exec_mapRows (h d (by simp))]
    rcases d.exec db with e | mid
    · rfl
    · exact ih fun d' hd' => h d' (by simp [hd'])

end Sql
