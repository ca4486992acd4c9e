import BuilderPro.Sessiond.RootRows

/-!
# What each call does to the roots

Each call keeps the tables well formed and says what the roots of every workspace are after it.
-/

namespace BuilderPro

namespace WorkspaceDb

variable {db db' : WorkspaceDb} {w : String} {n : ℕ} {ps : List String}

/-- A call is rejected and leaves the tables, or it keeps the invariant and leaves these roots. -/
def Outcome (db : WorkspaceDb) (R : String → List String)
    (r : Except PersistError Unit × WorkspaceDb) : Prop :=
  (∃ e, r = (.error e, db)) ∨ r.1 = .ok () ∧ r.2.Inv ∧ r.2.rootPaths = R

theorem exists_findWorkspace (hw : (db.workspaces.lookup w).isSome) :
    ∃ v, db.findWorkspace w = some v := by
  obtain ⟨x, hx⟩ := Option.isSome_iff_exists.1 hw
  exact ⟨db.view x, by rw [findWorkspace, hx, Option.map_some]⟩

/-- An upsert puts the roots it is given in the place of the old. -/
theorem upsertWorkspace_outcome (h : db.Inv) (id name : String) {roots : List String}
    (hnodup : roots.Nodup) :
    db.Outcome (fun k => if k = id then roots else db.rootPaths k)
      (db.call (.upsertWorkspace id name roots)) := by
  rcases roots with _ | ⟨p, ps⟩
  · exact .inl ⟨_, rfl⟩
  have hlookup : ∀ k, (db.workspaces.upsert ⟨id, name, p⟩).lookup k
      = if k = id then some ⟨id, name, p⟩ else db.workspaces.lookup k :=
    fun k => KeyedTable.lookup_upsert
  obtain ⟨t, ht, hrows⟩ := @replaceRoots_ok
    { db with workspaces := db.workspaces.upsert ⟨id, name, p⟩ } id
    (by rw [hlookup, if_pos rfl]; rfl) (p :: ps)
  have hreplaced : db.Replaced id (p :: ps) t := replaced_of_keep hrows
  rw [call, upsertWorkspace, ht]
  exact .inr ⟨rfl, h.rewrite hlookup hreplaced hnodup, hreplaced.rootPaths _⟩

theorem max?_range' (n : ℕ) : ((List.range' 0 (n + 1)).max?.map (· + 1)).getD 0 = n + 1 := by
  have h : (List.range' 0 (n + 1)).max? = some n := by
    refine List.max?_eq_some_iff.2 ⟨?_, fun b hb => ?_⟩
    · rw [List.mem_range'_1]
      omega
    · rw [List.mem_range'_1] at hb
      omega
  rw [h]
  rfl

/-- A root that is not there goes in behind the others. -/
theorem appendRoot_ok (h : db.Inv) {x : WorkspaceRow} {p : String}
    (hw : db.workspaces.lookup w = some x) (hp : p ∉ db.rootPaths w) :
    ∃ t, db.appendRoot w p = .ok { db with roots := t } ∧
      db.Replaced w (db.rootPaths w ++ [p]) t := by
  obtain ⟨ps, hroots, -⟩ := h.roots w x hw
  have hfree : ∀ r ∈ db.roots.rows, r.workspaceId = w → r.ord < ps.length + 1 := by
    intro r hr hid
    have hr : r ∈ numbered w 0 (x.rootPath :: ps) :=
      hroots ▸ List.mem_filter.2 ⟨hr, decide_eq_true hid⟩
    have := (mem_numbered hr).2.2
    rw [List.length_cons] at this
    omega
  obtain ⟨t, ht, hrows⟩ := insertRoot_ok (p := p) (by rw [hw, Option.isSome_some]) hfree
  refine ⟨t, ?_, fun k => ?_⟩
  · rw [appendRoot, if_neg, hroots, numbered_map_ord, List.length_cons]
    · show db.insertRoot ⟨w, ((List.range' 0 (ps.length + 1)).max?.map (· + 1)).getD 0, p⟩ = _
      rw [max?_range', ht]
    simpa only [mem_rootPaths, List.any_eq_true, decide_eq_true_eq] using hp
  · rw [hrows, List.filter_append, hroots.rootPaths]
    by_cases hk : k = w
    · subst hk
      rw [if_pos rfl, hroots, numbered_append]
      simp
    · simp [hk, Ne.symm hk]

theorem addWorkspaceRoot_outcome (h : db.Inv) (w p : String) :
    db.Outcome (fun k => if k = w ∧ p ∉ db.rootPaths w then db.rootPaths k ++ [p]
      else db.rootPaths k) (db.call (.addWorkspaceRoot w p)) := by
  rw [call, addWorkspaceRoot]
  rcases hw : db.workspaces.lookup w with _ | x
  · have hp : p ∉ db.rootPaths w := by rw [h.rootPaths_eq_nil hw]; exact List.not_mem_nil
    have happend : db.appendRoot w p = .error (.sql "FOREIGN KEY constraint failed") := by
      rw [appendRoot, if_neg, insertRoot, hw]
      simpa only [mem_rootPaths, List.any_eq_true, decide_eq_true_eq] using hp
    rw [happend]
    exact .inl ⟨_, rfl⟩
  have hsome : (db.workspaces.lookup w).isSome := by rw [hw, Option.isSome_some]
  by_cases hp : p ∈ db.rootPaths w
  · have happend : db.appendRoot w p = .ok db := by
      rw [appendRoot, if_pos]
      simpa only [mem_rootPaths, List.any_eq_true, decide_eq_true_eq] using hp
    obtain ⟨v, hv⟩ := exists_findWorkspace hsome
    simp only [happend, hv]
    refine .inr ⟨rfl, h, funext fun k => ?_⟩
    rw [if_neg (by simp [hp])]
  · obtain ⟨t, ht, hreplaced⟩ := appendRoot_ok h hw hp
    obtain ⟨v, hv⟩ := @exists_findWorkspace { db with roots := t } w hsome
    obtain ⟨ps, hroots, hnodup⟩ := h.roots w x hw
    simp only [ht, hv]
    rw [hroots.rootPaths] at hreplaced hp
    refine .inr ⟨rfl, h.rewrite (fun k => ?_) hreplaced ?_, ?_⟩
    · split_ifs with hk
      · rw [hk, hw]
      · rfl
    · exact (List.perm_append_singleton p _).nodup_iff.2 (List.nodup_cons.2 ⟨hp, hnodup⟩)
    · rw [hreplaced.rootPaths]
      funext k
      by_cases hk : k = w
      · simp [hk, hp, hroots.rootPaths]
      · simp [hk]

/-- The roots that are left are written in their order, and the workspace mirrors the first. -/
theorem removeWorkspaceRoot_outcome (h : db.Inv) (w p : String) :
    db.Outcome (fun k => if k = w then (db.rootPaths k).filter (· ≠ p) else db.rootPaths k)
      (db.call (.removeWorkspaceRoot w p)) := by
  rw [call, removeWorkspaceRoot]
  rcases hw : db.workspaces.lookup w with _ | x
  · have hnone : db.findWorkspace w = none := by rw [findWorkspace, hw, Option.map_none]
    simp only [h.rootPaths_eq_nil hw, hnone]
    exact .inl ⟨_, rfl⟩
  have hsome : (db.workspaces.lookup w).isSome := by rw [hw, Option.isSome_some]
  by_cases hlen : ((db.rootPaths w).filter (· ≠ p)).length = (db.rootPaths w).length
  · obtain ⟨v, hv⟩ := exists_findWorkspace hsome
    have hkept : (db.rootPaths w).filter (· ≠ p) = db.rootPaths w :=
      List.filter_sublist.eq_of_length hlen
    simp only [if_pos hlen, hv]
    refine .inr ⟨rfl, h, funext fun k => ?_⟩
    split_ifs with hk
    · rw [hk, hkept]
    · rfl
  rcases hrest : (db.rootPaths w).filter (· ≠ p) with _ | ⟨q, qs⟩
  · rw [hrest] at hlen
    simp only [if_neg hlen]
    exact .inl ⟨_, rfl⟩
  obtain ⟨ps, hroots, hnodup⟩ := h.roots w x hw
  obtain ⟨t, ht, hrows⟩ := replaceRoots_ok hsome (q :: qs)
  have hlookup : ∀ k, (db.workspaces.modify w fun w => { w with rootPath := q }).lookup k
      = if k = w then some { x with rootPath := q } else db.workspaces.lookup k := by
    intro k
    have hkey : ∀ y : WorkspaceRow, WorkspaceRow.id { y with rootPath := q } = y.id := fun _ => rfl
    rw [KeyedTable.lookup_modify hkey]
    split_ifs with hk
    · rw [hk, hw, Option.map_some]
    · rfl
  have hwrite : db.writeRemaining w (q :: qs) = .ok { db with
      roots := t
      workspaces := db.workspaces.modify w fun w => { w with rootPath := q } } := by
    rw [writeRemaining, ht]
    rfl
  have hqs : (q :: qs).Nodup := by
    rw [← hrest, hroots.rootPaths]
    exact hnodup.filter _
  have hreplaced := replaced_of_keep hrows
  obtain ⟨v, hv⟩ := @exists_findWorkspace { db with
    roots := t
    workspaces := db.workspaces.modify w fun w => { w with rootPath := q } } w
    (by rw [hlookup, if_pos rfl]; rfl)
  rw [hrest] at hlen
  simp only [if_neg hlen, hwrite, hv]
  refine .inr ⟨rfl, h.rewrite hlookup hreplaced hqs, ?_⟩
  simp only [reduceCtorEq, if_false]
  rw [hreplaced.rootPaths]
  funext k
  split_ifs with hk
  · rw [hk, hrest]
  · rfl

theorem mem_sessionIds {id : String} :
    id ∈ db.sessionIds w ↔ ∃ r, db.sessions.lookup id = some r ∧ r.workspaceId = w := by
  simp only [sessionIds, List.mem_map, List.mem_insertionSort, List.mem_filter,
    decide_eq_true_eq, KeyedTable.lookup_eq_some]
  constructor
  · rintro ⟨r, ⟨hr, hw⟩, hid⟩
    exact ⟨r, ⟨hr, hid⟩, hw⟩
  · rintro ⟨r, ⟨hr, hid⟩, hw⟩
    exact ⟨r, ⟨hr, hw⟩, hid⟩

/-- A row of a session that stays refers to a session that stays. -/
theorem lookup_kept {id : String} (h : (db.sessions.lookup id).isSome)
    (hid : id ∉ db.sessionIds w) :
    ((db.sessions.keep fun r => r.workspaceId ≠ w).lookup id).isSome := by
  obtain ⟨r, hr⟩ := Option.isSome_iff_exists.1 h
  rw [KeyedTable.lookup_keep, hr, Option.filter_some_pos]
  · rfl
  · exact decide_eq_true fun hw => hid (mem_sessionIds.2 ⟨r, hr, hw⟩)

theorem deleteWorkspace_outcome (h : db.Inv) (w : String) :
    db.Outcome (fun k => if k = w then [] else db.rootPaths k) (db.call (.deleteWorkspace w)) := by
  rw [call, deleteWorkspace]
  rcases hw : db.workspaces.lookup w with _ | x
  · exact .inl ⟨_, rfl⟩
  have hfilter : ∀ k ≠ w, (db.roots.keep fun r => r.workspaceId ≠ w).rows.filter
      (fun r => r.workspaceId = k) = db.roots.rows.filter fun r => r.workspaceId = k := by
    intro k hk
    rw [KeyedTable.keep, List.filter_filter]
    refine List.filter_congr fun r _ => ?_
    by_cases hr : r.workspaceId = k
    · simpa [hr] using hk
    · simp [hr]
  refine .inr ⟨rfl, ⟨fun k y hy => ?_, fun r hr => ?_, fun r hr => ?_, fun r hr => ?_,
    fun r hr => ?_⟩, funext fun k => ?_⟩
  · have hy : (db.workspaces.erase w).lookup k = some y := hy
    rw [KeyedTable.lookup_erase] at hy
    split_ifs at hy with hk
    obtain ⟨ps, hroots, hnodup⟩ := h.roots k y hy
    exact ⟨ps, (hfilter k hk).trans hroots, hnodup⟩
  · obtain ⟨hr, hne⟩ := List.mem_filter.1 hr
    show ((db.workspaces.erase w).lookup _).isSome
    rw [KeyedTable.lookup_erase_ne (of_decide_eq_true hne)]
    exact h.owned r hr
  · obtain ⟨hr, hne⟩ := List.mem_filter.1 hr
    show ((db.workspaces.erase w).lookup _).isSome
    rw [KeyedTable.lookup_erase_ne (of_decide_eq_true hne)]
    exact h.session r hr
  · obtain ⟨hr, hne⟩ := List.mem_filter.1 hr
    exact lookup_kept (h.scrollback r hr) (by simpa using hne)
  · obtain ⟨hr, hne⟩ := List.mem_filter.1 hr
    exact lookup_kept (h.event r hr) (by simpa using hne)
  · split_ifs with hk
    · refine List.eq_nil_iff_forall_not_mem.2 fun p hp => ?_
      obtain ⟨r, hr, hrk, -⟩ := mem_rootPaths.1 hp
      exact of_decide_eq_true (List.mem_filter.1 hr).2 (hrk.trans hk)
    · exact rootPaths_congr (hfilter k hk)

theorem workspaceExists_toDb : db.toDb.workspaceExists w = (db.workspaces.lookup w).isSome := by
  rw [Bool.eq_iff_iff, ← KeyedTable.exists_row, Db.workspaceExists, List.contains_iff_mem]
  exact List.mem_map

/-- A write to the sessions' tables that keeps their references. -/
theorem settleTables_outcome (h : db.Inv) {d : Option Db}
    (hd : ∀ d', d = some d' →
      (∀ r ∈ d'.sessions.rows, (db.workspaces.lookup r.workspaceId).isSome) ∧
      (∀ r ∈ d'.scrollback.rows, (d'.sessions.lookup r.sessionId).isSome) ∧
      ∀ r ∈ d'.commandEvents.rows, (d'.sessions.lookup r.sessionId).isSome) :
    db.Outcome db.rootPaths (db.settleTables d) := by
  rcases d with _ | d
  · exact .inl ⟨_, rfl⟩
  · obtain ⟨hsession, hscrollback, hevent⟩ := hd d rfl
    exact .inr ⟨rfl, ⟨h.roots, h.owned, hsession, hscrollback, hevent⟩, rfl⟩

theorem upsertSession_outcome (h : db.Inv) (m : SessionMeta) :
    db.Outcome db.rootPaths (db.call (.upsertSession m)) := by
  refine settleTables_outcome h fun d hd => ?_
  unfold Db.upsertSession at hd
  split_ifs at hd with hw
  cases hd
  rw [workspaceExists_toDb] at hw
  have hsome : ∀ id, (db.sessions.lookup id).isSome →
      ((db.sessions.upsert m.row).lookup id).isSome := by
    intro id hid
    rw [KeyedTable.lookup_upsert]
    split_ifs
    · rfl
    · exact hid
  exact ⟨KeyedTable.forall_upsert h.session hw, fun r hr => hsome _ (h.scrollback r hr),
    fun r hr => hsome _ (h.event r hr)⟩

theorem appendScrollback_outcome (h : db.Inv) (id : String) (bytes : List UInt8) :
    db.Outcome db.rootPaths (db.call (.appendScrollback id bytes)) := by
  refine settleTables_outcome h fun d hd => ?_
  obtain ⟨s, hs, rfl⟩ := Option.map_eq_some_iff.1 hd
  have hs : db.sessions.lookup id = some s := hs
  refine ⟨h.session, KeyedTable.forall_upsert h.scrollback ?_, h.event⟩
  rw [show db.toDb.sessions = db.sessions from rfl, hs, Option.isSome_some]

theorem appendCommandEvent_outcome (h : db.Inv) (id : String) (ev : CommandEvent) :
    db.Outcome db.rootPaths (db.call (.appendCommandEvent id ev)) := by
  refine settleTables_outcome h fun d hd => ?_
  obtain ⟨s, hs, rfl⟩ := Option.map_eq_some_iff.1 hd
  have hs : db.sessions.lookup id = some s := hs
  refine ⟨h.session, h.scrollback, KeyedTable.forall_upsert h.event ?_⟩
  rw [show db.toDb.sessions = db.sessions from rfl, hs, Option.isSome_some]

theorem deleteSession_outcome (h : db.Inv) (id : String) :
    db.Outcome db.rootPaths (db.call (.deleteSession id)) := by
  rw [call]
  refine settleTables_outcome h fun d hd => ?_
  cases hd
  have hkept : ∀ k, (db.sessions.lookup k).isSome → k ≠ id →
      ((db.sessions.erase id).lookup k).isSome := by
    intro k hk hne
    rw [KeyedTable.lookup_erase_ne hne]
    exact hk
  refine ⟨fun r hr => h.session r (List.mem_filter.1 hr).1, fun r hr => ?_, fun r hr => ?_⟩
  · obtain ⟨hr, hne⟩ := List.mem_filter.1 hr
    exact hkept _ (h.scrollback r hr) (of_decide_eq_true hne)
  · obtain ⟨hr, hne⟩ := List.mem_filter.1 hr
    exact hkept _ (h.event r hr) (by simpa using hne)

end WorkspaceDb

end BuilderPro
