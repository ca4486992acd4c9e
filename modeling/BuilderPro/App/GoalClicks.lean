import BuilderPro.App.GoalTree

/-!
# What the clicks have seen

The goals of a click were siblings in a list of the daemon's, and are as long as they are there
(`Seen`), throughout every run (`Seen.step`).
-/

namespace BuilderPro

namespace GoalTreeState

variable {st st' : GoalTreeState}

section Settled

variable {g g' : Goal} {w : Swap} {id : String} {ord : ℤ}

theorem idle_iff : st.Idle id ↔ ∀ ord, ¬st.Holds id ord := by
  simp only [Idle, Holds, not_exists, not_and]
  constructor
  · intro h ord w hw hu hc
    rw [h w hw hu] at hc
    cases hc
  · intro h w hw hu
    exact Option.eq_none_iff_forall_ne_some.2 fun ord hc => h ord w hw hu hc

theorem settledOrd_of_idle (h : st.Idle g.id) : st.settledOrd g = g.ord := by
  rw [settledOrd, List.findSome?_eq_none_iff.2]
  · rfl
  · intro w hw
    obtain ⟨hw, hu⟩ := List.mem_filter.1 hw
    exact h w hw (of_decide_eq_true hu)

theorem settledOrd_of_holds (h : st.Apart) (hh : st.Holds g.id ord) : st.settledOrd g = ord := by
  obtain ⟨w, hw, hu, hc⟩ := hh
  have hsome : ((st.swaps.rows.filter fun w => st.UnderWay w).findSome? fun w =>
      w.captured g.id) = some ord := by
    rcases hf : (st.swaps.rows.filter fun w => st.UnderWay w).findSome? fun w =>
        w.captured g.id with _ | o
    · have := List.findSome?_eq_none_iff.1 hf w (List.mem_filter.2 ⟨hw, decide_eq_true hu⟩)
      rw [hc] at this
      cases this
    · obtain ⟨w', hw', ho⟩ := List.exists_of_findSome?_eq_some hf
      obtain ⟨hw', hu'⟩ := List.mem_filter.1 hw'
      obtain rfl := h w hw w' hw' hu (of_decide_eq_true hu') g.id (by simp [hc]) (by simp [ho])
      exact hf.trans (ho.symm.trans hc)
  rw [settledOrd, hsome, Option.getD_some]

/-- What the clicks under way hold of a goal, or else its row, is its settled order. -/
theorem settledOrd_congr (h : st.Apart) (h' : st'.Apart) (hid : g'.id = g.id)
    (hheld : ∀ ord, st'.Holds g.id ord ↔ st.Holds g.id ord)
    (hord : st.Idle g.id → g'.ord = g.ord) : st'.settledOrd g' = st.settledOrd g := by
  by_cases hidle : st.Idle g.id
  · have hidle' : st'.Idle g'.id := by
      rw [hid, idle_iff]
      exact fun ord hh => idle_iff.1 hidle ord ((hheld ord).1 hh)
    rw [settledOrd_of_idle hidle, settledOrd_of_idle hidle', hord hidle]
  · simp only [idle_iff, not_forall, not_not] at hidle
    obtain ⟨ord, hh⟩ := hidle
    rw [settledOrd_of_holds h hh, settledOrd_of_holds h' (hid.symm ▸ (hheld ord).2 hh)]

theorem rank_of_lookup (h : st.db.goals.lookup id = some g) : st.rank id = st.settledOrd g := by
  rw [rank, h, Option.elim_some]

end Settled

/-! ### What the clicks have seen -/

section SeenSteps

variable {g : Goal} {p : String} {goals : List Goal} {w : Swap}

/-- Ids go on standing for goals of the same project and parent. -/
structure Extends (st st' : GoalTreeState) : Prop where
  ids : ∀ id ∈ st.ids, id ∈ st'.ids
  rows : ∀ id ∈ st.ids, ∀ x', st'.db.goals.lookup id = some x' →
    ∃ x, st.db.goals.lookup id = some x ∧ x'.projectId = x.projectId ∧ x'.parentId = x.parentId

theorem Known.mono (he : st.Extends st') (h : st.Known g) : st'.Known g := by
  refine ⟨he.ids _ h.1, fun x' hx' => ?_⟩
  obtain ⟨x, hx, hproject, hparent⟩ := he.rows _ h.1 x' hx'
  exact ⟨hproject.trans (h.2 x hx).1, hparent.trans (h.2 x hx).2⟩

theorem Listed.mono (he : st.Extends st') (h : st.Listed p goals) : st'.Listed p goals :=
  ⟨h.1, fun g hg => ⟨(h.2 g hg).1, (h.2 g hg).2.mono he⟩⟩

theorem SiblingPair.mono (he : st.Extends st') (h : st.SiblingPair w) : st'.SiblingPair w :=
  ⟨h.1.mono he, h.2.1.mono he, h.2.2⟩

theorem Extends.of_eq (hids : ∀ id ∈ st.ids, id ∈ st'.ids) (hdb : st'.db = st.db) :
    st.Extends st' :=
  ⟨hids, fun _ _ x' hx' => ⟨x', by rwa [hdb] at hx', rfl, rfl⟩⟩

/-- The rows change and the lists and clicks stay, or go. -/
theorem Seen.extend (h : st.Seen) (he : st.Extends st') (htrees : st'.db.GoalTrees)
    (hids : ∀ g ∈ st'.db.goals.rows, g.id ∈ st'.ids) (hreplies : st'.replies = st.replies)
    (hlists : st'.goalsByProject = st.goalsByProject)
    (hswaps : ∀ w ∈ st'.swaps.rows, ∃ w' ∈ st.swaps.rows, w.goal = w'.goal ∧
      w.neighbor = w'.neighbor) : st'.Seen where
  trees := htrees
  ids := hids
  replies r hr := (h.replies r (hreplies ▸ hr)).mono he
  lists p := by
    rw [hlists]
    exact (h.lists p).mono he
  pairs w hw := by
    obtain ⟨w', hw', hgoal, hneighbor⟩ := hswaps w hw
    have hpair := (h.pairs w' hw').mono he
    rwa [SiblingPair, ← hgoal, ← hneighbor] at hpair

theorem Seen.known (h : st.Seen) (hg : st.db.goals.lookup g.id = some g) : st.Known g :=
  ⟨h.ids g (KeyedTable.lookup_eq_some.1 hg).1, fun x hx => by
    obtain rfl := Option.some.inj (hg.symm.trans hx)
    exact ⟨rfl, rfl⟩⟩

theorem Seen.perm_listGoals (h : st.Seen) (hl : st.db.listGoals p = .ok goals) :
    goals.Perm (st.db.rowsOf Goal p) := by
  have hp : st.db.HasProject p := by
    unfold Store.listGoals at hl
    split at hl
    · cases hl
    · rename_i x hx
      rw [Store.HasProject, hx]
      rfl
  obtain ⟨gs, hgs, hperm⟩ := h.trees.listGoals hp
  obtain rfl := Except.ok.inj (hgs.symm.trans hl)
  exact hperm

theorem mem_rowsOf : g ∈ st.db.rowsOf Goal p ↔ g ∈ st.db.goals.rows ∧ g.projectId = p := by
  simp [Store.rowsOf, ProjectChild.projectId, ProjectChild.table]

theorem Seen.listGoals (h : st.Seen) (hl : st.db.listGoals p = .ok goals) : st.Listed p goals := by
  have hperm := h.perm_listGoals hl
  refine ⟨?_, fun g hg => ?_⟩
  · exact (hperm.map _).nodup_iff.2 (st.db.goals.nodup.sublist (List.filter_sublist.map _))
  · obtain ⟨hg, hproject⟩ := mem_rowsOf.1 (hperm.subset hg)
    exact ⟨hproject, h.known (KeyedTable.mem_rows.1 hg)⟩

theorem Seen.click {no : ℕ} {id : String} {pick : List Goal → Goal → Option Goal} (h : st.Seen)
    (hpick : ∀ goals g n, (goals.map Goal.id).Nodup → pick goals g = some n →
      n ∈ goals ∧ n.parentId = g.parentId ∧ n.id ≠ g.id)
    (hc : st.click no p id pick = some st') : st'.Seen := by
  simp only [GoalTreeState.click, Option.bind_eq_some_iff] at hc
  obtain ⟨goal, hgoal, hc⟩ := hc
  split at hc
  · rename_i n hn
    obtain ⟨swaps, hswaps, rfl⟩ := Option.map_eq_some_iff.1 hc
    obtain ⟨hnodup, hlisted⟩ := h.lists p
    obtain ⟨hmem, hparent, hid⟩ := hpick _ _ _ hnodup hn
    obtain ⟨hgp, hgknown⟩ := hlisted goal (List.mem_of_find?_eq_some hgoal)
    obtain ⟨hnp, hnknown⟩ := hlisted n hmem
    refine ⟨h.trees, h.ids, h.replies, h.lists, fun w hw => ?_⟩
    rw [(KeyedTable.insert_eq_some.1 hswaps).2, List.mem_append, List.mem_singleton] at hw
    rcases hw with hw | rfl
    · exact h.pairs w hw
    · exact ⟨hgknown, hnknown, hid, hnp.trans hgp.symm, hparent⟩
  · cases hc
    exact h

theorem Seen.known_request {ord : ℤ} (h : st.Seen) (hw : w ∈ st.swaps.rows)
    (hr : w.request = some (g, ord)) : st.Known g := by
  obtain ⟨hgoal, hneighbor, -⟩ := h.pairs w hw
  rw [Swap.request] at hr
  split at hr
  · exact (Prod.mk.inj (Option.some.inj hr)).1 ▸ hgoal
  · exact (Prod.mk.inj (Option.some.inj hr)).1 ▸ hneighbor
  · cases hr

theorem mem_erase {no : ℕ} {w : Swap} (hw : w ∈ (st.swaps.erase no).rows) : w ∈ st.swaps.rows :=
  (List.mem_filter.1 hw).1

theorem Seen.step {a : GoalTreeAction} (h : st.Seen) (hs : st.step a = some st') : st'.Seen := by
  rcases a with ⟨p, parent, kind, title, body, id, now⟩ | id | p | i | ⟨no, p, id⟩ | ⟨no, p, id⟩ |
    ⟨no, now⟩ | no | no
  · obtain ⟨hid, hs⟩ := Option.ite_none_left_eq_some.1 hs
    split at hs
    · rename_i db g hdb
      cases hs
      obtain ⟨hinsert, rfl, -⟩ := Store.createGoal_rows hdb
      refine h.extend ⟨fun _ => List.mem_cons_of_mem _, fun x hx x' hx' => ?_⟩
        (Store.Write.goalTrees h.trees (Store.createGoal_write hdb)) (fun x hx => ?_) rfl rfl
        fun w hw => ⟨w, hw, rfl, rfl⟩
      · have hne : x ≠ g.id := fun hxg => hid (hxg ▸ hx)
        have hx'' : db.goals.lookup x = some x' := hx'
        rw [KeyedTable.lookup_insert hinsert, if_neg hne] at hx''
        exact ⟨x', hx'', rfl, rfl⟩
      · have hx : x ∈ db.goals.rows := hx
        rw [(KeyedTable.insert_eq_some.1 hinsert).2, List.mem_append, List.mem_singleton] at hx
        rcases hx with hx | rfl
        · exact List.mem_cons_of_mem _ (h.ids x hx)
        · exact List.mem_cons_self
    · cases hs
      exact h.extend (.of_eq (fun _ => List.mem_cons_of_mem _) rfl) h.trees
        (fun x hx => List.mem_cons_of_mem _ (h.ids x hx)) rfl rfl fun w hw => ⟨w, hw, rfl, rfl⟩
  · simp only [GoalTreeState.step] at hs
    split at hs
    · rename_i db hdb
      cases hs
      have hrows := Store.deleteGoal_rows hdb
      refine h.extend ⟨fun _ hx => hx, fun x hx x' hx' => ?_⟩
        (Store.Write.goalTrees h.trees (Store.deleteGoal_write hdb)) (fun x hx => ?_) rfl rfl
        fun w hw => ⟨w, hw, rfl, rfl⟩
      · have hx'' : db.goals.lookup x = some x' := hx'
        rw [hrows, KeyedTable.lookup_keep, Option.filter_eq_some_iff] at hx''
        exact ⟨x', hx''.1, rfl, rfl⟩
      · have hx : x ∈ db.goals.rows := hx
        rw [hrows] at hx
        exact h.ids x (List.mem_filter.1 hx).1
    · cases hs
      exact h
  · simp only [GoalTreeState.step] at hs
    split at hs
    · rename_i goals hgoals
      cases hs
      refine ⟨h.trees, h.ids, fun r hr => ?_, h.lists, h.pairs⟩
      rcases List.mem_append.1 hr with hr | hr
      · exact h.replies r hr
      · obtain rfl := List.mem_singleton.1 hr
        exact h.listGoals hgoals
    · cases hs
      exact h
  · obtain ⟨r, hr, rfl⟩ := Option.map_eq_some_iff.1 hs
    refine ⟨h.trees, h.ids, fun r' hr' => h.replies r' (List.mem_of_mem_eraseIdx hr'),
      fun p => ?_, h.pairs⟩
    by_cases hp : p = r.1
    · subst hp
      have hl : st.Listed r.1 (Function.update st.goalsByProject r.1 r.2 r.1) := by
        simpa using h.replies r (List.mem_of_getElem? hr)
      exact hl
    · have hl : st.Listed p (Function.update st.goalsByProject r.1 r.2 p) := by
        simpa [hp] using h.lists p
      exact hl
  · exact h.click (fun _ _ _ => prevSibling_spec) hs
  · exact h.click (fun _ _ _ => nextSibling_spec) hs
  · simp only [GoalTreeState.step, Option.bind_eq_some_iff, Option.map_eq_some_iff] at hs
    obtain ⟨w, hw, ⟨g, ord⟩, hr, rfl⟩ := hs
    have hwmem := (KeyedTable.lookup_eq_some.1 hw).1
    split
    · rename_i db x' hdb
      obtain ⟨x, hx, hrows, hid, hproject, hparent, -⟩ := Store.moveGoal_rows hdb
      have hlookup (k : String) := KeyedTable.lookup_replace (k := k) (x := x') (hid ▸ hx)
      have hx' : x'.projectId = x.projectId ∧ x'.parentId = x.parentId :=
        ⟨hproject, hparent.trans ((h.known_request hwmem hr).2 x hx).2.symm⟩
      refine h.extend ⟨fun _ hy => hy, fun y _ y' hy' => ?_⟩
        (Store.Write.goalTrees h.trees (Store.moveGoal_write hdb)) (fun y hy => ?_) rfl rfl ?_
      · have hy' : db.goals.lookup y = some y' := hy'
        rw [hrows, hlookup] at hy'
        split_ifs at hy' with hyx
        · obtain rfl := Option.some.inj hy'
          exact ⟨x, by rwa [hyx, hid], hx'⟩
        · exact ⟨y', hy', rfl, rfl⟩
      · have hy : y ∈ db.goals.rows := hy
        rw [hrows] at hy
        rcases KeyedTable.mem_replace.1 hy with ⟨rfl, z, hz, hzid⟩ | ⟨hy, -⟩
        · exact hzid ▸ h.ids z hz
        · exact h.ids y hy
      · intro v hv
        rcases KeyedTable.mem_replace.1 hv with ⟨rfl, -⟩ | ⟨hv, -⟩
        · exact ⟨w, hwmem, rfl, rfl⟩
        · exact ⟨v, hv, rfl, rfl⟩
    · exact ⟨h.trees, h.ids, h.replies, h.lists, fun w hw => h.pairs w (mem_erase hw)⟩
  · obtain ⟨w, -, rfl⟩ := Option.map_eq_some_iff.1 hs
    exact ⟨h.trees, h.ids, h.replies, h.lists, fun w hw => h.pairs w (mem_erase hw)⟩
  · simp only [GoalTreeState.step, Option.bind_eq_some_iff] at hs
    obtain ⟨w, -, hs⟩ := hs
    obtain ⟨-, ⟨⟩⟩ := Option.ite_none_right_eq_some.1 hs
    exact ⟨h.trees, h.ids, h.replies, h.lists, fun w hw => h.pairs w (mem_erase hw)⟩

end SeenSteps

end GoalTreeState

end BuilderPro
