import BuilderPro.Lib.SqlChanges

/-!
# Inserted rows

An insertion either fails or leaves the rows of the table with the new ones, in a sound database
(`insertAll_sound`).  It succeeds on rows that their table admits and that are apart
(`insertAll_ok`).
-/

namespace Sql

variable {db db' mid : Database} {t t' : Table} {name table : String} {r s x : Row}
  {column : Column} {checks : List Cond} {k : Constraint} {f : Table → Table} {d : Definition}

variable {rows : List Row}

theorem Database.alter_append_append {rows' : List Row} :
    (db.alter table (Table.append rows)).alter table (Table.append rows') =
      db.alter table (Table.append (rows ++ rows')) := by
  simp only [Database.alter, List.map_map]
  congr 1
  refine List.map_congr_left fun t _ => ?_
  by_cases h : t.name = table <;> simp [h, Table.append]

theorem Database.alter_append_nil : db.alter table (Table.append []) = db := by
  have hid : (fun t : Table => if t.name = table then t.append [] else t) = id := by
    funext t
    unfold Table.append
    split_ifs <;> simp
  rw [Database.alter, hid, List.map_id]

theorem Database.find_append (ht : db.find table = some t) :
    (db.alter table (Table.append rows)).find table = some (t.append rows) := by
  rw [Database.find_alter (Table.name_append rows), ht]
  simp

theorem Database.mem_rowsOf_append (h : x ∈ db.rowsOf name) :
    x ∈ (db.alter table (Table.append rows)).rowsOf name := by
  by_cases hname : name = table
  · subst hname
    rcases ht : db.find name with _ | t
    · simp [Database.rowsOf, ht] at h
    · rw [Database.rowsOf_of_find ht] at h
      rw [Database.rowsOf_of_find (Database.find_append ht)]
      exact List.mem_append_left _ h
  · rwa [Database.rowsOf_alter_of_ne (Table.name_append rows) hname]

theorem Table.Admits.append (h : t.Admits db r) :
    t.Admits (db.alter table (Table.append rows)) r :=
  ⟨h.columns, fun k hk => (h.constraints k hk).congr (fun _ _ => rfl)
    fun _ _ _ _ x hx => ⟨x, Database.mem_rowsOf_append hx, rfl⟩⟩

theorem Table.Admits.append_append {rows' : List Row} (h : t.Admits db r) :
    (t.append rows').Admits (db.alter table (Table.append rows)) r := by
  have hrows : t.Admits (db.alter table (Table.append rows)) r := h.append
  exact ⟨hrows.columns, hrows.constraints⟩

theorem Database.Sound.append (hdb : db.Sound) (ht : db.find table = some t)
    (hadmits : ∀ r ∈ rows, t.Admits db r)
    (hapart : ∀ k ∈ t.constraints, (t.rows ++ rows).Pairwise fun r s => k.Apart r s) :
    (db.alter table (Table.append rows)).Sound := by
  refine ⟨?_, fun u' hu' => ?_⟩
  · rw [Database.names_alter (Table.name_append rows)]
    exact hdb.nodup
  · obtain ⟨u, hu, rfl⟩ := List.mem_map.1 hu'
    split_ifs with hname
    · obtain rfl : t = u := by
        have hfind := Database.find_of_mem hdb.nodup hu
        rw [hname, ht] at hfind
        exact Option.some.inj hfind
      refine ⟨fun r hr => ?_, hapart⟩
      have hold : t.Admits db r := by
        rcases List.mem_append.1 hr with hr | hr
        · exact (hdb.tables t hu).admits r hr
        · exact hadmits r hr
      exact hold.append_append
    · exact ⟨fun r hr => ((hdb.tables u hu).admits r hr).append, (hdb.tables u hu).apart⟩

theorem insertAll_ok (ht : db.find table = some t) (hadmits : ∀ r ∈ rows, t.Admits db r)
    (hapart : ∀ k ∈ t.constraints, (t.rows ++ rows).Pairwise fun r s => k.Apart r s) :
    insertAll table rows db = .ok (db.alter table (Table.append rows)) := by
  induction rows generalizing db t with
  | nil =>
    rw [Database.alter_append_nil]
    rfl
  | cons r rows ih =>
    have hinsert : insert table r db = .ok (db.alter table (Table.append [r])) := by
      simp only [insert, ht]
      rw [if_pos]
      refine ⟨hadmits r (by simp), fun k hk x hx => ?_⟩
      exact (List.pairwise_append.1 (hapart k hk)).2.2 x hx r (by simp)
    have hrest := @ih (db.alter table (Table.append [r])) _ (Database.find_append ht)
      (fun s hs => (hadmits s (by simp [hs])).append_append)
      (fun k hk => by simpa [Table.append] using hapart k hk)
    rw [insertAll, List.foldlM_cons, hinsert]
    rw [Database.alter_append_append, List.singleton_append] at hrest
    exact hrest

theorem eq_of_insertAll (h : insertAll table rows db = .ok db') :
    db' = db.alter table (Table.append rows) := by
  induction rows generalizing db with
  | nil =>
    rw [Database.alter_append_nil]
    exact (Except.ok.inj h).symm
  | cons r rows ih =>
    rw [insertAll, List.foldlM_cons] at h
    rcases hr : insert table r db with e | mid <;> rw [hr] at h
    · simp [Bind.bind, Except.bind] at h
    · rcases ht : db.find table with _ | t <;> simp only [insert, ht] at hr
      · simp at hr
      · split_ifs at hr
        obtain rfl := Except.ok.inj hr
        rw [ih h, Database.alter_append_append, List.singleton_append]

theorem Database.mapRows_append {g : Row → Row} :
    (db.alter table (Table.append rows)).mapRows table g =
      (db.mapRows table g).alter table (Table.append (rows.map g)) := by
  simp only [Database.mapRows, Database.alter, List.map_map]
  congr 1
  refine List.map_congr_left fun t _ => ?_
  by_cases h : t.name = table <;> simp [h, Table.append, Table.mapRows]

theorem keptAmong_append {among : String → Prop} (h : ¬among table) :
    KeptAmong among db (db.alter table (Table.append rows)) := by
  refine ⟨rfl, fun name hamong t ht => ⟨t, ?_, .refl t⟩, fun name hamong hname => ?_⟩
  · have hne : name ≠ table := fun heq => h (heq ▸ hamong)
    rw [Database.find_alter (Table.name_append rows), ht]
    simp [hne]
  · have hne : name ≠ table := fun heq => h (heq ▸ hamong)
    rw [Database.rowsOf_alter_of_ne (Table.name_append rows) hne, Database.rowsOf_of_notMem hname]

theorem insert_sound (hdb : db.Sound) (h : insert table r db = .ok db') : db'.Sound := by
  rcases ht : db.find table with _ | t
  · simp [insert, ht] at h
  · simp only [insert, ht] at h
    split_ifs at h with hrow
    obtain rfl := Except.ok.inj h
    have hsound := hdb.tables t (Database.mem_of_find ht)
    refine hdb.append ht (by simpa using hrow.1) fun k hk => ?_
    rw [List.pairwise_append]
    exact ⟨hsound.apart k hk, by simp, by simpa using hrow.2 k hk⟩

theorem insertAll_sound (hdb : db.Sound) (h : insertAll table rows db = .ok db') : db'.Sound := by
  induction rows generalizing db with
  | nil =>
    obtain rfl := Except.ok.inj h
    exact hdb
  | cons r rows ih =>
    rw [insertAll, List.foldlM_cons] at h
    rcases hr : insert table r db with e | mid <;> rw [hr] at h
    · simp [Bind.bind, Except.bind] at h
    · exact ih (insert_sound hdb hr) h

theorem Database.shape_append : (db.alter table (Table.append rows)).shape = db.shape := by
  simp only [Database.shape, Database.alter, List.map_map]
  refine List.map_congr_left fun t _ => ?_
  by_cases h : t.name = table <;> simp [h, Table.append]

/-! ### Statements that succeed -/

theorem Database.find_shape {version : ℤ} : (⟨db.shape, version⟩ : Database).find name =
    (db.find name).map fun t => { t with rows := [] } := by
  unfold Database.find Database.shape
  rw [List.find?_map]
  rfl

theorem Database.names_shape {version : ℤ} :
    (⟨db.shape, version⟩ : Database).names = db.names := by
  simp [Database.names, Database.shape, Function.comp_def]

theorem Definition.exec_ok {shape : List Table} (hd : d.Fillable)
    (h : d.exec ⟨db.shape, 0⟩ = .ok ⟨shape, 0⟩) :
    ∃ db', d.exec db = .ok db' ∧ db'.shape = shape := by
  rcases d with ⟨ifNotExists, t⟩ | _ | ⟨table, column, checks⟩
  · simp only [exec, Database.names_shape] at h ⊢
    split_ifs at h ⊢ with hname hif
    · exact ⟨db, rfl, by simpa using h⟩
    · refine ⟨_, rfl, ?_⟩
      simpa [Database.shape] using h
  · exact ⟨db, rfl, by simpa [exec] using h⟩
  · simp only [exec, Database.find_shape] at h ⊢
    rcases ht : db.find table with _ | t <;> rw [ht] at h
    · simp at h
    · simp only [Option.map_some] at h ⊢
      split_ifs at h with hcolumn
      have hrows : ∀ r ∈ t.rows, column.Admits (r.fill column) ∧
          ∀ a ∈ checks, a.eval (r.fill column) ≠ some false := by
        intro r _
        refine ⟨?_, fun a ha => ?_⟩
        · unfold Column.Admits
          rw [Row.fill_self]
          exact hd.1
        · have heq : a.eval (r.fill column) = a.eval fun _ => column.fallback := by
            refine Cond.eval_congr fun c hc => ?_
            rw [(hd.2 a ha).1 c hc, Row.fill_self]
          rw [heq]
          exact (hd.2 a ha).2
      rw [if_neg hcolumn, if_pos hrows]
      refine ⟨_, rfl, ?_⟩
      have hshape := congrArg Database.tables (Except.ok.inj h)
      simp only [Database.alter, Database.shape, List.map_map] at hshape ⊢
      rw [← hshape]
      refine List.map_congr_left fun u _ => ?_
      by_cases hname : u.name = table <;> simp [hname, Table.addColumn]

end Sql
