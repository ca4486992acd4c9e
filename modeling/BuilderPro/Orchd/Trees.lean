import BuilderPro.Lib.TreeTable
import BuilderPro.Orchd.Imported
import BuilderPro.Orchd.Writes

/-!
# The trees of goals and tasks

The goals of a project are one tree under its strategic goal, and its tasks are trees of their own.
The live verbs keep them so; an import does exactly when the bundle's goals and tasks are such
trees, which its validation asks for only in part.
-/

namespace BuilderPro

open Results

namespace Store

/-- The goals of each project are a tree under its strategic goal, the one without a parent. -/
structure GoalTrees (s : Store) : Prop where
  owned : ∀ g ∈ s.goals.rows, s.HasProject g.projectId
  strategic : ∀ p, s.HasProject p → ∃ g ∈ s.goals.rows, g.projectId = p ∧ g.kind = .strategic
  only : ∀ g ∈ s.goals.rows, ∀ h ∈ s.goals.rows, g.kind = .strategic → h.kind = .strategic →
    g.projectId = h.projectId → g = h
  root : ∀ g ∈ s.goals.rows, g.parentId = none ↔ g.kind = .strategic
  trees : s.goals.Trees Goal.parentId Goal.projectId

abbrev TaskTrees (s : Store) : Prop := s.tasks.Trees DomainTask.parentId DomainTask.projectId

structure WellFormedTrees (s : Store) : Prop where
  goals : s.GoalTrees
  tasks : s.TaskTrees

theorem wellFormedTrees_empty : empty.WellFormedTrees where
  goals :=
    { owned := fun _ h => absurd h List.not_mem_nil
      strategic := fun _ h => by cases h
      only := fun _ h => absurd h List.not_mem_nil
      root := fun _ h => absurd h List.not_mem_nil
      trees := KeyedTable.trees_empty }
  tasks := KeyedTable.trees_empty

variable {s t : Store}

/-! ### The live verbs -/

theorem hasStrategicGoal_eq_false {p : String} :
    s.hasStrategicGoal p = false ↔ ∀ g ∈ s.goals.rows, g.kind = .strategic → g.projectId ≠ p := by
  simp only [hasStrategicGoal, List.any_eq_false, Bool.and_eq_true, beq_iff_eq, not_and']

/-- A walk that has ended without the target has not passed it. -/
theorem climb_ne_of_ancestorWalk {up : String → Option String} {tooDeep : OrchdPersistError}
    {target : String} {n : ℕ} {x : String} (h : ancestorWalk up tooDeep target n (some x) = .ok false)
    (k : ℕ) : Forest.climb up k x ≠ some target := by
  induction n generalizing x k with
  | zero => cases h
  | succ n ih =>
    rw [ancestorWalk] at h
    split_ifs at h with hx
    · cases h
    · rcases k with _ | k
      · simpa using hx
      · rw [Forest.climb_succ]
        rcases hup : up x with _ | y
        · exact nofun
        · rw [hup] at h
          exact ih h k

/-- A goal that goes in behind the others. -/
theorem GoalTrees.insert (h : s.GoalTrees) {g : Goal} (hu : s.goals.insert g = some t.goals)
    (hp : ∀ p, t.HasProject p → s.HasProject p ∨ g.projectId = p ∧ g.kind = .strategic)
    (hp' : ∀ p, s.HasProject p ∨ g.projectId = p → t.HasProject p)
    (hroot : g.parentId = none ↔ g.kind = .strategic)
    (hparent : ∀ q, g.parentId = some q →
      ∃ h, s.goals.lookup q = some h ∧ h.projectId = g.projectId)
    (hone : g.kind = .strategic → s.hasStrategicGoal g.projectId = false) : t.GoalTrees := by
  have hrows := (KeyedTable.insert_eq_some.1 hu).2
  have hmem : ∀ x, x ∈ t.goals.rows ↔ x ∈ s.goals.rows ∨ x = g := by simp [hrows]
  refine ⟨fun x hx => hp' _ ?_, fun p ht => ?_, fun x hx y hy => ?_, fun x hx => ?_,
    h.trees.insert hu hparent⟩
  · rcases (hmem x).1 hx with hx | rfl
    · exact .inl (h.owned x hx)
    · exact .inr rfl
  · rcases hp p ht with hp | ⟨hp, hkind⟩
    · obtain ⟨x, hx, hxp⟩ := h.strategic p hp
      exact ⟨x, (hmem x).2 (.inl hx), hxp⟩
    · exact ⟨g, (hmem g).2 (.inr rfl), hp, hkind⟩
  · intro hkx hky hxy
    rcases (hmem x).1 hx with hx | rfl <;> rcases (hmem y).1 hy with hy | rfl
    · exact h.only x hx y hy hkx hky hxy
    · exact (hasStrategicGoal_eq_false.1 (hone hky) x hx hkx hxy).elim
    · exact (hasStrategicGoal_eq_false.1 (hone hkx) y hy hky hxy.symm).elim
    · rfl
  · rcases (hmem x).1 hx with hx | rfl
    · exact h.root x hx
    · exact hroot

/-- A goal put in the place of one of its project and kind. -/
theorem GoalTrees.replace (h : s.GoalTrees) {g g' : Goal} (hg : s.goals.lookup g'.id = some g)
    (hp : g'.projectId = g.projectId) (hkind : g'.kind = g.kind)
    (hroot : g'.parentId = none ↔ g'.kind = .strategic)
    (htrees : (s.goals.replace g').Trees Goal.parentId Goal.projectId) :
    ({ s with goals := s.goals.replace g' } : Store).GoalTrees := by
  have hgmem := (KeyedTable.lookup_eq_some.1 hg).1
  refine ⟨fun x hx => ?_, fun p hp' => ?_, fun x hx y hy => ?_, fun x hx => ?_, htrees⟩
  · rcases KeyedTable.mem_replace.1 hx with ⟨rfl, -⟩ | ⟨hx, -⟩
    · exact hp ▸ h.owned g hgmem
    · exact h.owned x hx
  · obtain ⟨x, hx, hxp, hxk⟩ := h.strategic p hp'
    by_cases hid : x.id = g'.id
    · obtain rfl : x = g := Option.some.inj ((KeyedTable.mem_rows.1 hx).symm.trans (hid ▸ hg))
      exact ⟨g', KeyedTable.mem_replace.2 (.inl ⟨rfl, x, hx, hid⟩), hp.trans hxp, hkind.trans hxk⟩
    · exact ⟨x, KeyedTable.mem_replace.2 (.inr ⟨hx, hid⟩), hxp, hxk⟩
  · -- two strategic goals of a project were one before
    intro hkx hky hxy
    rcases KeyedTable.mem_replace.1 hx with ⟨rfl, -⟩ | ⟨hxold, hxid⟩ <;>
      rcases KeyedTable.mem_replace.1 hy with ⟨rfl, -⟩ | ⟨hyold, hyid⟩
    · rfl
    · have := h.only g hgmem y hyold (hkind ▸ hkx) hky (hp ▸ hxy)
      exact (hyid (this ▸ KeyedTable.key_eq hg)).elim
    · have := h.only x hxold g hgmem hkx (hkind ▸ hky) (hxy.trans hp)
      exact (hxid (this ▸ KeyedTable.key_eq hg)).elim
    · exact h.only x hxold y hyold hkx hky hxy
  · rcases KeyedTable.mem_replace.1 hx with ⟨rfl, -⟩ | ⟨hx, -⟩
    · exact hroot
    · exact h.root x hx

/-- The strategic goals are below none. -/
theorem GoalTrees.not_underGoal (h : s.GoalTrees) {g x : Goal} {id : String}
    (hg : s.goals.lookup id = some g) (hadd : g.kind ≠ .strategic) (hx : x ∈ s.goals.rows)
    (hkind : x.kind = .strategic) : s.underGoal id x.id = false := by
  rw [Bool.eq_false_iff, ne_eq, underGoal, Forest.reaches_iff]
  rintro ⟨n, -, hn⟩
  rcases n with _ | n
  · obtain rfl : x.id = id := Option.some.inj hn
    obtain rfl := Option.some.inj ((KeyedTable.mem_rows.1 hx).symm.trans hg)
    exact hadd hkind
  · have hlookup : s.goals.lookup x.id = some x := KeyedTable.mem_rows.1 hx
    have hnone : s.goalParent x.id = none := by
      rw [goalParent, hlookup]
      exact (h.root x hx).2 hkind
    rw [Forest.climb_succ, hnone] at hn
    cases hn

/-- What a deletion takes of a group of siblings is all of them, or the goal it names. -/
theorem underGoal_of_sibling {id : String} {x y : Goal} (hx : s.goals.lookup x.id = some x)
    (hy : s.goals.lookup y.id = some y) (hparent : x.parentId = y.parentId) (hid : x.id ≠ id)
    (hu : s.underGoal id x.id = true) : s.underGoal id y.id = true := by
  rw [underGoal, Forest.reaches_iff] at hu ⊢
  obtain ⟨n, hn, hclimb⟩ := hu
  refine ⟨n, hn, ?_⟩
  rcases n with _ | n
  · exact absurd (Option.some.inj hclimb) hid
  · rw [Forest.climb_succ, goalParent, hx] at hclimb
    rw [Forest.climb_succ, goalParent, hy]
    simpa [hparent] using hclimb

theorem GoalTrees.delete (h : s.GoalTrees) {g : Goal} {id : String}
    (hg : s.goals.lookup id = some g) (hadd : g.kind ≠ .strategic) :
    ({ s with goals := s.goals.keep fun x => !s.underGoal id x.id } : Store).GoalTrees := by
  refine ⟨fun x hx => h.owned x (List.mem_filter.1 hx).1, fun p hp => ?_, fun x hx y hy => ?_,
    fun x hx => ?_, h.trees.prune id⟩
  · obtain ⟨x, hx, hxp, hxk⟩ := h.strategic p hp
    exact ⟨x, List.mem_filter.2 ⟨hx, by simp [h.not_underGoal hg hadd hx hxk]⟩, hxp, hxk⟩
  · exact h.only x (List.mem_filter.1 hx).1 y (List.mem_filter.1 hy).1
  · exact h.root x (List.mem_filter.1 hx).1

theorem hasProject_setProject {id p : String} {f : ProjectRow → ProjectRow}
    (hf : ∀ x, (f x).id = x.id) : (s.setProject id f).HasProject p ↔ s.HasProject p := by
  rw [HasProject, setProject, KeyedTable.lookup_modify hf, HasProject]
  split_ifs <;> simp

theorem Write.goalTrees (h : s.GoalTrees) (hw : s.Write t) : t.GoalTrees := by
  cases hw with
  | setProject id f hf =>
    exact ⟨fun g hg => (hasProject_setProject hf).2 (h.owned g hg),
      fun p hp => h.strategic p ((hasProject_setProject hf).1 hp), h.only, h.root, h.trees⟩
  | newProject t x g n r hnew =>
    obtain ⟨hp, hparent, hkind⟩ := hnew.goalOf
    have hproject : ∀ p, t.HasProject p ↔ s.HasProject p ∨ g.projectId = p := by
      intro p
      rw [HasProject, KeyedTable.lookup_insert hnew.project, hp]
      split_ifs with hpx
      · simp [hpx]
      · exact (or_iff_left (Ne.symm hpx)).symm
    refine h.insert hnew.goal (fun p ht => ?_) (fun p => (hproject p).2) (by simp [hparent, hkind])
      (by simp [hparent]) fun _ => hp ▸ hnew.only
    exact ((hproject p).1 ht).imp_right fun hg => ⟨hg, hkind⟩
  | insertGoal g u hu hp hroot hparent hone =>
    refine h.insert (t := { s with goals := u }) hu (fun _ => .inl) ?_ hroot hparent hone
    rintro p (hs | rfl)
    · exact hs
    · exact hp
  | replaceGoal g g' hg hp hparent hkind =>
    refine h.replace hg hp hkind ?_ (h.trees.replace hg hparent hp)
    rw [hparent, hkind]
    exact h.root g (KeyedTable.lookup_eq_some.1 hg).1
  | moveGoal g g' q hg hp hparent hkind hadd hq hbelow =>
    refine h.replace hg hp hkind ?_
      (h.trees.move hg hp hparent (by rw [hp]; exact hq) (climb_ne_of_ancestorWalk hbelow))
    rw [hparent, hkind]
    exact iff_of_false (Option.some_ne_none q) hadd
  | deleteGoals g id hg hadd => exact h.delete hg hadd
  | _ => exact ⟨h.owned, h.strategic, h.only, h.root, h.trees⟩

theorem Write.taskTrees (h : s.TaskTrees) (hw : s.Write t) : t.TaskTrees := by
  cases hw with
  | newProject t x g n r hnew =>
    rw [hnew.rest]
    exact h
  | insertTask x u hu hp hparent hrank => exact h.insert hu hparent
  | replaceTask x x' hx hp hparent hrank => exact h.replace hx hparent hp
  | deleteTasks id => exact h.prune id
  | _ => exact h

theorem Writes.wellFormedTrees (h : s.WellFormedTrees) (hw : s.Writes t) : t.WellFormedTrees := by
  induction hw with
  | refl => exact h
  | tail _ hw ih => exact ⟨hw.goalTrees ih.goals, hw.taskTrees ih.tasks⟩

/-! ### The list of a project's goals -/

theorem goalSortKey_isSome (h : s.GoalTrees) {p : String} {g : Goal} {n : ℕ}
    (hg : s.goals.lookup g.id = some g) (hp : g.projectId = p)
    (hn : Forest.climb (s.goals.link Goal.parentId) n g.id = none) :
    (s.goalSortKey p n g.id).isSome := by
  induction n generalizing g with
  | zero => cases hn
  | succ n ih =>
    simp only [goalSortKey, hg, hp, ne_eq, not_true, if_false]
    rcases hparent : g.parentId with _ | q
    · rfl
    · obtain ⟨y, hy, hyp⟩ := h.trees.parent_mem g (KeyedTable.lookup_eq_some.1 hg).1 q hparent
      obtain rfl := KeyedTable.key_eq hy
      rw [Option.isSome_map]
      refine ih hy (hyp.trans hp) ?_
      rwa [Forest.climb_succ, KeyedTable.link, hg, Option.bind_some, hparent] at hn

/-- A project's list of goals has all of them. -/
theorem GoalTrees.listGoals (h : s.GoalTrees) {p : String} (hp : s.HasProject p) :
    ∃ gs, s.listGoals p = .ok gs ∧ gs.Perm (s.rowsOf Goal p) := by
  obtain ⟨x, hx⟩ := Option.isSome_iff_exists.1 hp
  refine ⟨_, by rw [Store.listGoals, hx], ?_⟩
  refine ((List.perm_insertionSort _ _).map _).trans ?_
  have hall : ∀ g ∈ s.rowsOf Goal p,
      ((s.goalSortKey p s.goals.rows.length g.id).map fun k => (k, g)).map Prod.snd = some g := by
    intro g hg
    obtain ⟨hg, hgp⟩ := List.mem_filter.1 hg
    have hlookup : s.goals.lookup g.id = some g := KeyedTable.mem_rows.1 hg
    obtain ⟨key, hkey⟩ := Option.isSome_iff_exists.1 (goalSortKey_isSome h hlookup
      (by simpa [ProjectChild.projectId] using hgp) (by
        by_contra hne
        exact (h.trees.climb_lt (by rw [hlookup]; rfl) hne).false))
    rw [hkey]
    rfl
  rw [goalTree, List.map_filterMap, List.filterMap_congr hall]
  simp

end Store

/-! ### Imports -/

/-- Whether a bundle's goals and tasks are trees in their projects: each of its projects has a
strategic goal, which is the goal without a parent, a parent is a goal or task of the same project,
in the store or in the bundle, and none is above itself. -/
structure AllImportEnvelope.GrowsTrees (e : AllImportEnvelope) (s : Store) : Prop where
  strategic : ∀ b ∈ e.projects, ∃ g ∈ e.goals, g.projectId = b.project.id ∧ g.kind = .strategic
  root : ∀ g ∈ e.goals, g.parentId = none ↔ g.kind = .strategic
  goalParent : ∀ g ∈ e.goals, ∀ q, g.parentId = some q →
    ∃ h ∈ s.goals.rows ++ e.goals, h.id = q ∧ h.projectId = g.projectId
  goalsAcyclic : Forest.Acyclic (KeyedTable.linkOf Goal.id Goal.parentId e.goals)
  taskParent : ∀ x ∈ e.tasks, ∀ q, x.parentId = some q →
    ∃ y ∈ s.tasks.rows ++ e.tasks, y.id = q ∧ y.projectId = x.projectId
  tasksAcyclic : Forest.Acyclic (KeyedTable.linkOf DomainTask.id DomainTask.parentId e.tasks)

namespace Store

variable {s t : Store} {host : Host} {draw : SeedDraw} {e : AllImportEnvelope}

/-- The index of strategic goals. -/
def OnlyStrategic (s : Store) : Prop :=
  ∀ g ∈ s.goals.rows, ∀ h ∈ s.goals.rows, g.kind = .strategic → h.kind = .strategic →
    g.projectId = h.projectId → g = h

theorem OnlyStrategic.of_adds {d : Rows} (h : s.Adds t d) (hd : d.goals = []) :
    s.OnlyStrategic → t.OnlyStrategic := by
  intro hs
  rw [OnlyStrategic, h.goals, hd, List.append_nil]
  exact hs

theorem rawKept_onlyStrategic : Orchd.RawKept OnlyStrategic where
  project h := OnlyStrategic.of_adds (insertProjectRaw_adds h) rfl
  goal {s g t} h hs := by
    have hg := (insertGoalRaw_adds h).goals
    simp only [insertGoalRaw, insertGoal, ite_error_eq_ok] at h
    have hnew : g.kind = .strategic → ∀ x ∈ s.goals.rows, x.kind = .strategic →
        x.projectId ≠ g.projectId := by
      intro hk
      exact hasStrategicGoal_eq_false.1 (by simpa [hk] using h.1)
    have hmem : ∀ x, x ∈ t.goals.rows ↔ x ∈ s.goals.rows ∨ x = g := by
      intro x
      rw [hg]
      simp [AddedChild.added]
    intro x hx y hy hkx hky hxy
    rcases (hmem x).1 hx with hx | rfl <;> rcases (hmem y).1 hy with hy | rfl
    · exact hs x hx y hy hkx hky hxy
    · exact (hnew hky x hx hkx hxy).elim
    · exact (hnew hkx y hy hky hxy.symm).elim
    · rfl
  idea h := OnlyStrategic.of_adds (insertRow_adds h) rfl
  insight h := OnlyStrategic.of_adds (insertRow_adds h) rfl
  task h := OnlyStrategic.of_adds (insertRow_adds h) rfl
  ruleset h := OnlyStrategic.of_adds (insertRulesetRaw_adds h) rfl
  doc h := OnlyStrategic.of_adds (insertDocRaw_adds h) rfl
  node h := OnlyStrategic.of_adds (insertNode_adds h) rfl
  edge h := OnlyStrategic.of_adds (insertEdge_adds h) rfl

theorem owned_of_foreignKeysHold (h : s.foreignKeysHold = true) :
    ∀ g ∈ s.goals.rows, s.HasProject g.projectId := by
  simp only [foreignKeysHold, Bool.and_eq_true, List.all_eq_true] at h
  obtain ⟨⟨⟨⟨⟨⟨⟨⟨⟨-, hg⟩, -⟩, -⟩, -⟩, -⟩, -⟩, -⟩, -⟩, -⟩ := h
  exact fun g hmem => (hg g hmem).1

/-- An import leaves the trees well formed exactly when the bundle's are. -/
theorem importRows_wellFormedTrees_iff (h : s.WellFormedTrees) {st : Orchd.Importing}
    (hi : Orchd.importRows host draw s e = .ok st) :
    st.1.WellFormedTrees ↔ e.GrowsTrees s := by
  obtain ⟨⟨nodes, seeds, hadds, -, -⟩, -, hkeys⟩ := Orchd.importRows_adds hi
  have honly := Orchd.importRows_keeps rawKept_onlyStrategic hi h.goals.only
  have hgoals : st.1.goals.rows = s.goals.rows ++ e.goals := hadds.goals
  have htasks : st.1.tasks.rows = s.tasks.rows ++ e.tasks := hadds.tasks
  have hproject : ∀ p, st.1.HasProject p ↔ s.HasProject p ∨ ∃ b ∈ e.projects, b.project.id = p := by
    intro p
    simp only [HasProject, ← KeyedTable.exists_row, hadds.projects, List.mem_append, or_and_right,
      exists_or]
    refine or_congr_right ?_
    simp [AllImportEnvelope.rows, ProjectBundle.rows]
  have hmem : ∀ g, g ∈ st.1.goals.rows ↔ g ∈ s.goals.rows ∨ g ∈ e.goals := by
    intro g
    rw [hgoals, List.mem_append]
  constructor
  · rintro ⟨⟨-, hstr, -, hroot, htrees⟩, htask⟩
    obtain ⟨hgp, hga⟩ := (KeyedTable.trees_append_iff h.goals.trees hgoals).1 htrees
    obtain ⟨htp, hta⟩ := (KeyedTable.trees_append_iff h.tasks htasks).1 htask
    refine ⟨fun b hb => ?_, fun g hg => hroot g ((hmem g).2 (.inr hg)), hgp, hga, htp, hta⟩
    obtain ⟨g, hg, hp, hk⟩ := hstr b.project.id ((hproject _).2 (.inr ⟨b, hb, rfl⟩))
    rcases (hmem g).1 hg with hg | hg
    · -- no goal of the store is in a project that is new
      have hnodup := st.1.projects.nodup
      rw [hadds.projects, List.map_append, List.nodup_append] at hnodup
      obtain ⟨x, hx, hxp⟩ := KeyedTable.exists_row.2 (h.goals.owned g hg)
      refine (hnodup.2.2 x.id (List.mem_map_of_mem hx) b.project.id ?_ (hxp.trans hp)).elim
      refine List.mem_map.2 ⟨b.project.toProjectRow, ?_, rfl⟩
      exact List.mem_flatMap.2 ⟨b, hb, List.mem_singleton_self _⟩
    · exact ⟨g, hg, hp, hk⟩
  · rintro ⟨hstr, hroot, hgp, hga, htp, hta⟩
    refine ⟨⟨owned_of_foreignKeysHold hkeys, fun p hp => ?_, honly, fun g hg => ?_,
      (KeyedTable.trees_append_iff h.goals.trees hgoals).2 ⟨hgp, hga⟩⟩,
      (KeyedTable.trees_append_iff h.tasks htasks).2 ⟨htp, hta⟩⟩
    · rcases (hproject p).1 hp with hp | ⟨b, hb, rfl⟩
      · obtain ⟨g, hg, hgp⟩ := h.goals.strategic p hp
        exact ⟨g, (hmem g).2 (.inl hg), hgp⟩
      · obtain ⟨g, hg, hgp⟩ := hstr b hb
        exact ⟨g, (hmem g).2 (.inr hg), hgp⟩
    · rcases (hmem g).1 hg with hg | hg
      · exact h.goals.root g hg
      · exact hroot g hg

end Store

/-! ### Runs -/

/-- Every project's list of goals has all its goals. -/
def Store.ListsGoals (s : Store) : Prop :=
  ∀ p, s.HasProject p → ∃ gs, s.listGoals p = .ok gs ∧ gs.Perm (s.rowsOf Goal p)

namespace Orchd

variable {host : Host} {serde : BundleJson} {o o' : Orchd}

/-- An import that goes through brings trees. -/
def ImportsTrees (host : Host) (serde : BundleJson) (o : Orchd) : StoreRequest → Prop
  | .domain _ => True
  | .importBundle json draw => ∀ r, importBundle host draw serde o json = .ok r →
    ∀ e, parseBundle serde json = .ok e → e.GrowsTrees o.db

theorem stepStore_wellFormedTrees_iff (h : o.db.WellFormedTrees) {r : StoreRequest}
    (hr : stepStore host serde o r = some o') :
    o'.db.WellFormedTrees ↔ ImportsTrees host serde o r := by
  obtain rfl := Option.some.inj hr
  rcases hs : serve host serde o r with err | t
  · refine iff_of_true h ?_
    cases r with
    | domain r => trivial
    | importBundle json draw =>
      intro r hr
      rw [serve, hr] at hs
      cases hs
  · cases r with
    | domain r => exact iff_of_true (Store.Writes.wellFormedTrees h (handle_writes hs)) trivial
    | importBundle json draw =>
      simp only [serve, map_eq_ok] at hs
      obtain ⟨r, hr, rfl⟩ := hs
      obtain ⟨e, st, he, hst, hdb, -⟩ := importBundle_eq_ok hr
      have hiff := Store.importRows_wellFormedTrees_iff h hst
      constructor
      · intro hw r' hr' e' he'
        obtain rfl := Except.ok.inj (he.symm.trans he')
        refine hiff.1 ?_
        rw [Except.toOption, Option.getD_some, hdb] at hw
        exact hw
      · intro hw
        have := hiff.2 (hw r hr e he)
        rw [Except.toOption, Option.getD_some, hdb]
        exact this

/-- Along a run from the empty store, with any requests and any texts to import, the goals and tasks
of every project are trees, and every list of goals is complete, exactly as long as the imports
bring trees. -/
theorem trees_throughout_iff (files : Files) (rs : List StoreRequest) :
    Runs.Throughout (stepStore host serde)
        (fun o : Orchd => o.db.WellFormedTrees ∧ o.db.ListsGoals) ⟨.empty, files⟩ rs
      ↔ Runs.Along (stepStore host serde) (ImportsTrees host serde) ⟨.empty, files⟩ rs := by
  have hlists : ∀ s : Store, s.WellFormedTrees → s.WellFormedTrees ∧ s.ListsGoals :=
    fun s h => ⟨h, fun p hp => h.goals.listGoals hp⟩
  refine Runs.throughout_iff (I := fun _ => True)
    (P := fun o : Orchd => o.db.WellFormedTrees ∧ o.db.ListsGoals) (fun _ _ _ _ _ => trivial) ?_
    trivial (hlists _ Store.wellFormedTrees_empty) rs
  intro o r t _ h hr
  rw [← stepStore_wellFormedTrees_iff h.1 hr]
  exact ⟨And.left, hlists _⟩

/-- A bundle of a project without a goal. -/
def goallessJson : BundleJson where
  fromStr _ := .ok ⟨some 1, "Some(Number(1))", .project (.ok
    ⟨⟨⟨"p", "", "", .active, 0, 0⟩, ["w"]⟩, [], [], [], [], none, [], [], []⟩)⟩
  toString _ := ""

theorem goalless_project_imported :
    ∃ o, stepStore plainHost goallessJson fresh (.importBundle "" fun _ _ => ("n", 0)) = some o
      ∧ ¬ o.db.WellFormedTrees := by
  refine ⟨_, rfl, fun h => ?_⟩
  obtain ⟨g, hg, -⟩ := h.goals.strategic "p" (by decide +kernel)
  revert hg
  exact List.not_mem_nil

end Orchd

end BuilderPro
