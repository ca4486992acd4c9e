import BuilderPro.Sessiond.WorkspaceDb

/-!
# The rows of roots

The roots of a workspace are numbered from 0 without a gap, none of them twice (`WorkspaceDb.Inv`).
Roots that are written in place of the old ones are read back (`replaceRoots_ok`).
-/

namespace BuilderPro

namespace WorkspaceDb

section Numbered

variable {w p : String} {n : ℕ} {ps : List String} {r : RootRow}

theorem mem_numbered (h : r ∈ numbered w n ps) :
    r.workspaceId = w ∧ n ≤ r.ord ∧ r.ord < n + ps.length := by
  induction ps generalizing n with
  | nil => simp [numbered] at h
  | cons p ps ih =>
    rw [numbered, List.mem_cons] at h
    rcases h with rfl | h
    · simp
    · obtain ⟨hw, hge, hlt⟩ := ih h
      rw [List.length_cons]
      exact ⟨hw, by omega, by omega⟩

theorem numbered_map_path : (numbered w n ps).map RootRow.path = ps := by
  induction ps generalizing n with
  | nil => rfl
  | cons p ps ih => rw [numbered, List.map_cons, ih]

theorem numbered_map_ord : (numbered w n ps).map RootRow.ord = List.range' n ps.length := by
  induction ps generalizing n with
  | nil => rfl
  | cons p ps ih => rw [numbered, List.map_cons, ih, List.length_cons, List.range'_succ]

theorem numbered_append : numbered w n (ps ++ [p])
    = numbered w n ps ++ [⟨w, n + ps.length, p⟩] := by
  induction ps generalizing n with
  | nil => rfl
  | cons q ps ih =>
    rw [List.cons_append, numbered, ih, numbered, List.cons_append, List.length_cons]
    congr 4
    omega

theorem numbered_sorted : (numbered w n ps).Pairwise fun r r' => r.ord ≤ r'.ord := by
  induction ps generalizing n with
  | nil => exact .nil
  | cons p ps ih =>
    refine List.pairwise_cons.2 ⟨fun r hr => ?_, ih⟩
    have := (mem_numbered hr).2.1
    simp only
    omega

theorem numbered_filter (w' : String) :
    (numbered w n ps).filter (fun r => r.workspaceId = w')
      = if w = w' then numbered w n ps else [] := by
  split_ifs with h
  · exact List.filter_eq_self.2 fun r hr => by simpa [h] using (mem_numbered hr).1
  · refine List.filter_eq_nil_iff.2 fun r hr => ?_
    rw [(mem_numbered hr).1]
    simpa using h

end Numbered

variable {db db' : WorkspaceDb} {w : String} {n : ℕ} {ps : List String}

/-- The rows of a workspace are these roots, numbered from 0. -/
def HasRoots (db : WorkspaceDb) (w : String) (ps : List String) : Prop :=
  (db.roots.rows.filter fun r => r.workspaceId = w) = numbered w 0 ps

theorem HasRoots.rootRows (h : db.HasRoots w ps) : db.rootRows w = numbered w 0 ps := by
  rw [WorkspaceDb.rootRows, h, List.Pairwise.insertionSort_eq numbered_sorted]

theorem HasRoots.rootPaths (h : db.HasRoots w ps) : db.rootPaths w = ps := by
  rw [WorkspaceDb.rootPaths, h.rootRows, numbered_map_path]

/-- Past the numbers taken, a root of a workspace that is there goes in. -/
theorem insertRoot_ok {p : String} (hw : (db.workspaces.lookup w).isSome)
    (hfree : ∀ r ∈ db.roots.rows, r.workspaceId = w → r.ord < n) :
    ∃ t, db.insertRoot ⟨w, n, p⟩ = .ok { db with roots := t } ∧
      t.rows = db.roots.rows ++ [⟨w, n, p⟩] := by
  obtain ⟨row, hrow⟩ := Option.isSome_iff_exists.1 hw
  have hnone : db.roots.lookup (RootRow.key ⟨w, n, p⟩) = none := by
    rw [Option.eq_none_iff_forall_not_mem]
    intro r hr
    obtain ⟨hmem, hkey⟩ := KeyedTable.lookup_eq_some.1 hr
    obtain ⟨hid, hord⟩ := Prod.mk.inj hkey
    have hord : r.ord = n := hord
    have := hfree r hmem hid
    omega
  obtain ⟨t, ht⟩ := KeyedTable.exists_insert hnone
  refine ⟨t, ?_, (KeyedTable.insert_eq_some.1 ht).2⟩
  simp only [insertRoot, hrow, ht]

theorem foldlM_insertRoot (hw : (db.workspaces.lookup w).isSome)
    (hfree : ∀ r ∈ db.roots.rows, r.workspaceId = w → r.ord < n) :
    ∃ t, (numbered w n ps).foldlM insertRoot db = .ok { db with roots := t } ∧
      t.rows = db.roots.rows ++ numbered w n ps := by
  induction ps generalizing db n with
  | nil => exact ⟨db.roots, rfl, by simp [numbered]⟩
  | cons p ps ih =>
    obtain ⟨t, ht, hrows⟩ := insertRoot_ok (p := p) hw hfree
    have hfree' : ∀ r ∈ t.rows, r.workspaceId = w → r.ord < n + 1 := by
      intro r hr hid
      rcases List.mem_append.1 (hrows ▸ hr) with hr | hr
      · have := hfree r hr hid
        omega
      · rw [List.mem_singleton.1 hr]
        simp
    obtain ⟨u, hu, hurows⟩ := @ih { db with roots := t } (n + 1) hw hfree'
    refine ⟨u, ?_, by rw [hurows, numbered]; simp [hrows]⟩
    rw [numbered, List.foldlM_cons, ht]
    exact hu

/-- The roots of a workspace that is there can be written anew; the others stay. -/
theorem replaceRoots_ok (hw : (db.workspaces.lookup w).isSome) (ps : List String) :
    ∃ t, db.replaceRoots w ps = .ok { db with roots := t } ∧
      t.rows = (db.roots.keep fun r => r.workspaceId ≠ w).rows ++ numbered w 0 ps :=
  @foldlM_insertRoot { db with roots := db.roots.keep fun r => r.workspaceId ≠ w } w 0 ps hw
    fun r hr hid => by simp [KeyedTable.keep, hid] at hr

/-! ## The invariant -/

/-- Every workspace has roots, none twice, numbered from 0, and mirrors the first; and every row
refers to one that is there. -/
structure Inv (db : WorkspaceDb) : Prop where
  roots : ∀ w x, db.workspaces.lookup w = some x →
    ∃ ps, db.HasRoots w (x.rootPath :: ps) ∧ (x.rootPath :: ps).Nodup
  owned : ∀ r ∈ db.roots.rows, (db.workspaces.lookup r.workspaceId).isSome
  session : ∀ r ∈ db.sessions.rows, (db.workspaces.lookup r.workspaceId).isSome
  scrollback : ∀ r ∈ db.scrollback.rows, (db.sessions.lookup r.sessionId).isSome
  event : ∀ r ∈ db.commandEvents.rows, (db.sessions.lookup r.sessionId).isSome

theorem inv_empty : empty.Inv where
  roots _ _ h := by cases h
  owned _ h := by cases h
  session _ h := by cases h
  scrollback _ h := by cases h
  event _ h := by cases h

theorem rootPaths_congr (h : db'.roots.rows.filter (fun r => r.workspaceId = w)
    = db.roots.rows.filter fun r => r.workspaceId = w) : db'.rootPaths w = db.rootPaths w := by
  rw [rootPaths, rootPaths, rootRows, rootRows, h]

theorem mem_rootPaths {p : String} :
    p ∈ db.rootPaths w ↔ ∃ r ∈ db.roots.rows, r.workspaceId = w ∧ r.path = p := by
  simp only [rootPaths, rootRows, List.mem_map, List.mem_insertionSort, List.mem_filter,
    decide_eq_true_eq, and_assoc]

/-- A workspace without a row has no roots. -/
theorem Inv.rootPaths_eq_nil (h : db.Inv) (hw : db.workspaces.lookup w = none) :
    db.rootPaths w = [] := by
  refine List.eq_nil_iff_forall_not_mem.2 fun p hp => ?_
  obtain ⟨r, hr, rfl, -⟩ := mem_rootPaths.1 hp
  have := h.owned r hr
  rw [hw] at this
  cases this

/-- The rows of `t` are those of `db`, but for one workspace, which has these roots. -/
def Replaced (db : WorkspaceDb) (w : String) (ps : List String) (t : KeyedTable RootRow.key) :
    Prop :=
  ∀ k, t.rows.filter (fun r => r.workspaceId = k)
    = if k = w then numbered w 0 ps else db.roots.rows.filter fun r => r.workspaceId = k

theorem replaced_of_keep {t : KeyedTable RootRow.key}
    (ht : t.rows = (db.roots.keep fun r => r.workspaceId ≠ w).rows ++ numbered w 0 ps) :
    db.Replaced w ps t := by
  intro k
  rw [ht, List.filter_append, numbered_filter, KeyedTable.keep, List.filter_filter]
  by_cases hk : k = w
  · subst hk
    rw [if_pos rfl, if_pos rfl, List.filter_eq_nil_iff.2 (by simp), List.nil_append]
  · rw [if_neg (Ne.symm hk), if_neg hk, List.append_nil]
    refine List.filter_congr fun r _ => ?_
    by_cases hr : r.workspaceId = k
    · simpa [hr] using hk
    · simp [hr]

/-- The roots of one workspace written anew, and its row with them. -/
theorem Inv.rewrite (h : db.Inv) {W : KeyedTable WorkspaceRow.id} {t : KeyedTable RootRow.key}
    {x : WorkspaceRow} (hW : ∀ k, W.lookup k = if k = w then some x else db.workspaces.lookup k)
    (ht : db.Replaced w (x.rootPath :: ps) t) (hnodup : (x.rootPath :: ps).Nodup) :
    ({ db with workspaces := W, roots := t } : WorkspaceDb).Inv := by
  have hsome : ∀ k, (db.workspaces.lookup k).isSome → (W.lookup k).isSome := by
    intro k hk
    rw [hW]
    split_ifs
    · rfl
    · exact hk
  refine ⟨fun k y hy => ?_, fun r hr => ?_, fun r hr => hsome _ (h.session r hr), h.scrollback,
    h.event⟩
  · have hfilter := ht k
    have hy : W.lookup k = some y := hy
    rw [hW] at hy
    by_cases hk : k = w
    · subst hk
      rw [if_pos rfl, Option.some.injEq] at hy
      subst hy
      rw [if_pos rfl] at hfilter
      exact ⟨ps, hfilter, hnodup⟩
    · rw [if_neg hk] at hy hfilter
      obtain ⟨qs, hqs, hqnodup⟩ := h.roots k y hy
      exact ⟨qs, hfilter.trans hqs, hqnodup⟩
  · by_cases hk : r.workspaceId = w
    · show (W.lookup r.workspaceId).isSome
      rw [hW, if_pos hk]
      rfl
    · have hmem : r ∈ t.rows.filter fun s => s.workspaceId = r.workspaceId :=
        List.mem_filter.2 ⟨hr, decide_eq_true rfl⟩
      rw [ht, if_neg hk] at hmem
      exact hsome _ (h.owned r (List.mem_filter.1 hmem).1)

theorem Replaced.rootPaths {t : KeyedTable RootRow.key} (ht : db.Replaced w ps t)
    (W : KeyedTable WorkspaceRow.id) :
    ({ db with workspaces := W, roots := t } : WorkspaceDb).rootPaths
      = fun k => if k = w then ps else db.rootPaths k := by
  funext k
  have hfilter := ht k
  by_cases hk : k = w
  · subst hk
    rw [if_pos rfl] at hfilter ⊢
    exact HasRoots.rootPaths hfilter
  · rw [if_neg hk] at hfilter ⊢
    exact rootPaths_congr hfilter

end WorkspaceDb

end BuilderPro
