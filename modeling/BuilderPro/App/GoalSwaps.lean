import BuilderPro.App.SiblingOrder

/-!
# Moving goals among their siblings

The goals under one parent keep distinct `ord`s, in the order that the clicks answered so far have
made, in every run whose clicks are in turn (`siblings_distinct`).
-/

namespace BuilderPro

namespace GoalTreeState

variable {st st' : GoalTreeState}

/-- The goals under one parent have distinct `ord`s. -/
def DistinctOrds (s : Store) : Prop :=
  ∀ g ∈ s.goals.rows, ∀ x ∈ s.goals.rows, g.projectId = x.projectId → g.parentId = x.parentId →
    g.ord = x.ord → g = x

instance (s : Store) : Decidable (DistinctOrds s) := inferInstanceAs (Decidable (∀ _ ∈ _, _))

/-- No click's requests are on their way: the settled orders are those of the rows. -/
theorem rank_of_atRest {g : Goal} {id : String} (hrest : st.AtRest)
    (hg : st.db.goals.lookup id = some g) : st.rank id = g.ord := by
  rw [rank_of_lookup hg, settledOrd_of_idle]
  intro w hw
  rw [hrest] at hw
  cases hw

theorem seen_init {s : Store} (hs : s.GoalTrees) : (init s).Seen where
  trees := hs
  ids _ := List.mem_map_of_mem
  replies _ hr := by cases hr
  lists _ := ⟨List.nodup_nil, nofun⟩
  pairs _ hw := by cases hw

theorem ordered_init {s : Store} (hd : DistinctOrds s) : (init s).Ordered where
  apart _ hw := by cases hw
  given _ hw := by cases hw
  mem p q id := by
    simp only [init, List.mem_map, List.mem_insertionSort, List.mem_filter, decide_eq_true_eq,
      KeyedTable.lookup_eq_some]
    constructor
    · rintro ⟨g, ⟨hg, hpq⟩, hid⟩
      exact ⟨g, ⟨hg, hid⟩, hpq⟩
    · rintro ⟨g, ⟨hg, hid⟩, hpq⟩
      exact ⟨g, ⟨hg, hpq⟩, hid⟩
  ranked p q := by
    set l := (s.goals.rows.filter fun g => g.projectId = p ∧ g.parentId = q).insertionSort
      fun a b => a.ord ≤ b.ord with hl
    have hmem {g : Goal} (hg : g ∈ l) : g ∈ s.goals.rows ∧ g.projectId = p ∧ g.parentId = q := by
      simpa [hl] using hg
    have hsorted : l.Pairwise fun a b => a.ord ≤ b.ord := List.pairwise_insertionSort _ _
    have hnodup : l.Nodup := (List.perm_insertionSort _ _).nodup_iff.2
      ((s.goals.nodup.of_map _).filter _)
    have hranked : Ranked Goal.ord l := by
      refine (hsorted.and hnodup).imp_of_mem fun {a b} ha hb hab => lt_of_le_of_ne hab.1 ?_
      intro hord
      obtain ⟨ha, hap, haq⟩ := hmem ha
      obtain ⟨hb, hbp, hbq⟩ := hmem hb
      exact hab.2 (hd a ha b hb (hap.trans hbp.symm) (haq.trans hbq.symm) hord)
    have hrest : (init s).AtRest := rfl
    refine List.pairwise_map.2 (hranked.imp_of_mem fun {a b} ha hb hab => ?_)
    rw [rank_of_atRest hrest (KeyedTable.mem_rows.1 (hmem ha).1),
      rank_of_atRest hrest (KeyedTable.mem_rows.1 (hmem hb).1)]
    exact hab

theorem run_inv {s : Store} (hs : s.GoalTrees) (hd : DistinctOrds s) {as : List GoalTreeAction}
    (h : Runs.Along step InTurn (init s) as) (hr : Runs.run step (init s) as = some st) :
    st.Seen ∧ st.Ordered :=
  h.keeps (I := fun st => st.Seen ∧ st.Ordered)
    (fun _ _ _ hi hc hstep => ⟨hi.1.step hstep, hi.2.step hi.1 hc hstep⟩)
    ⟨seen_init hs, ordered_init hd⟩ hr

/-- In every run whose steps come in turn, the goals under a parent have distinct `ord`s whenever no
click's requests are on their way, and are listed as creations, deletions and the successful clicks
have put them. -/
theorem siblings_distinct (s : Store) (hs : s.GoalTrees) (hd : DistinctOrds s)
    (as : List GoalTreeAction) (h : Runs.Along step InTurn (init s) as)
    (hr : Runs.run step (init s) as = some st) (hrest : st.AtRest) :
    DistinctOrds st.db ∧ ∀ p goals, st.db.listGoals p = .ok goals → ∀ g ∈ goals,
      (siblingsOf goals g).map Goal.id = st.order p g.parentId := by
  obtain ⟨hseen, hordered⟩ := run_inv hs hd h hr
  refine ⟨fun g hg x hx hp hq hord => ?_, fun p goals hgoals g hg => ?_⟩
  · have hgrow := KeyedTable.mem_rows.1 hg
    have hxrow := KeyedTable.mem_rows.1 hx
    have hgl := (hordered.mem x.projectId x.parentId g.id).2 ⟨g, hgrow, hp, hq⟩
    have hxl := (hordered.mem x.projectId x.parentId x.id).2 ⟨x, hxrow, rfl, rfl⟩
    have hrank : st.rank g.id = st.rank x.id := by
      rw [rank_of_atRest hrest hgrow, rank_of_atRest hrest hxrow, hord]
    have hid := List.inj_on_of_nodup_map (hordered.ranked _ _).nodup_map hgl hxl hrank
    exact Option.some.inj (hgrow.symm.trans (hid ▸ hxrow))
  · have hperm := hseen.perm_listGoals hgoals
    have hrow {x : Goal} (hx : x ∈ siblingsOf goals g) :
        st.db.goals.lookup x.id = some x ∧ x.projectId = p ∧ x.parentId = g.parentId := by
      obtain ⟨hx, hparent⟩ := List.mem_filter.1 ((perm_siblingsOf goals g).subset hx)
      obtain ⟨hx, hproject⟩ := mem_rowsOf.1 (hperm.subset hx)
      exact ⟨KeyedTable.mem_rows.1 hx, hproject, of_decide_eq_true hparent⟩
    have hnodup : ((siblingsOf goals g).map Goal.id).Nodup :=
      ((perm_siblingsOf goals g).map _).nodup_iff.2
        ((hseen.listGoals hgoals).1.sublist (List.filter_sublist.map _))
    refine (hordered.ranked p g.parentId).eq_of_perm ?_ ?_
    · refine (List.perm_ext_iff_of_nodup hnodup (hordered.ranked _ _).nodup).2 fun id => ?_
      rw [hordered.mem, List.mem_map]
      constructor
      · rintro ⟨x, hx, rfl⟩
        exact ⟨x, hrow hx⟩
      · rintro ⟨x, hx, hproject, hparent⟩
        refine ⟨x, (perm_siblingsOf goals g).symm.subset (List.mem_filter.2 ⟨?_, ?_⟩),
          KeyedTable.key_eq hx⟩
        · exact hperm.symm.subset (mem_rowsOf.2 ⟨(KeyedTable.lookup_eq_some.1 hx).1, hproject⟩)
        · exact decide_eq_true hparent
    · have hsorted : (siblingsOf goals g).Pairwise fun a b => a.ord ≤ b.ord :=
        List.pairwise_insertionSort _ _
      refine List.pairwise_map.2 (hsorted.imp_of_mem fun {a b} ha hb hab => ?_)
      rwa [rank_of_atRest hrest (hrow ha).1, rank_of_atRest hrest (hrow hb).1]

section Broken

/-- A project with its strategic goal. -/
def oneProject : Store :=
  match Store.empty.createProject ⟨true, ["support"]⟩ "P" "" ["w"] ⟨"p", "root", "n", "r"⟩ 0 with
  | .ok r => r.1
  | .error _ => .empty

theorem goalTrees_oneProject : oneProject.GoalTrees := by
  unfold oneProject
  split
  · rename_i h
    exact Store.Write.goalTrees Store.wellFormedTrees_empty.goals (Store.createProject_write h)
  · exact Store.wellFormedTrees_empty.goals

/-- Two goals under the root are created and shown, and the second one is clicked up. -/
def clickedUp : List GoalTreeAction :=
  [.createGoal "p" (some "root") .additional "A" "" "a" 1,
    .createGoal "p" (some "root") .additional "B" "" "b" 2,
    .listGoals "p", .refreshGoals 0, .moveUp 0 "p" "b", .serve 0 3]

/-- The click's second request is granted. -/
theorem siblings_distinct_swapped : ∃ st,
    Runs.run step (init oneProject) (clickedUp ++ [.serve 0 4, .succeed 0]) = some st ∧
      st.order "p" (some "root") = ["b", "a"] ∧
      DistinctOrds st.db ∧ ∀ p goals, st.db.listGoals p = .ok goals → ∀ g ∈ goals,
        (siblingsOf goals g).map Goal.id = st.order p g.parentId := by
  obtain ⟨st, hr, hrest, horder⟩ : ∃ st ∈ Runs.run step (init oneProject)
      (clickedUp ++ [.serve 0 4, .succeed 0]),
      st.swaps.rows = [] ∧ st.order "p" (some "root") = ["b", "a"] := by
    decide +kernel
  exact ⟨st, hr, horder, siblings_distinct oneProject goalTrees_oneProject (by decide +kernel) _
    (by decide +kernel) hr hrest⟩

/-- The click's second request is lost. -/
theorem equal_ords_left : ¬∀ (s : Store) (as : List GoalTreeAction) (st : GoalTreeState),
    s.GoalTrees → DistinctOrds s → Runs.run step (init s) as = some st → st.AtRest →
      DistinctOrds st.db := by
  intro h
  obtain ⟨st, hr, hrest, hequal⟩ : ∃ st ∈ Runs.run step (init oneProject) (clickedUp ++ [.fail 0]),
      st.swaps.rows = [] ∧ ¬DistinctOrds st.db := by
    decide +kernel
  exact hequal (h _ _ st goalTrees_oneProject (by decide +kernel) hr hrest)

end Broken

end GoalTreeState

end BuilderPro
