import BuilderPro.Orchd.GoalOrder

/-!
# The lists of the trees that are reached

Whatever projects are made and goals created, moved and deleted, from no project on, the goals are
trees and no `ord` is negative (`sound_reached`).  What is reached is listed in pre-order, and the
next `ord` of every group of siblings is an `i64`, exactly where the prints of siblings are in the
order of their `ord`s, siblings of one `ord` have nothing below them and no `ord` is the last `i64`
(`listed_reached_iff`).
-/

namespace BuilderPro

open Results

namespace Store

/-- A project is made, or a goal is written. -/
inductive TreeVerb
  | createProject (appSupport : FilePath) (name description : String) (workspaceIds : List String)
      (ids : ProjectIds) (now : ℤ)
  | goal (v : GoalVerb)

/-- A verb that is refused leaves the store; one whose sum overflows does not return. -/
def treeStep (s : Store) : TreeVerb → Option Store
  | .createProject appSupport name description workspaceIds ids now =>
    match s.createProject appSupport name description workspaceIds ids now with
    | .error _ => some s
    | .ok (t, _) => some t
  | .goal v => (GoalRun.step ⟨s, false⟩ v).bind fun st => if st.overflowed then none else some st.db

/-- Every list of a project's goals, whichever way equal keys fall, is in order, and the `ord` of a
goal created next is an `i64`. -/
def ListedTrees (s : Store) : Prop :=
  (GoalRun.mk s false).Listed ∧ ∀ p parent, s.nextGoalOrd p parent ≤ GoalRun.i64Max

variable {s t : Store} {v : TreeVerb}

theorem createProject_goal {app : FilePath} {name description : String} {ws : List String}
    {ids : ProjectIds} {now : ℤ} {r : Store × Project}
    (h : s.createProject app name description ws ids now = .ok r) :
    ∃ g : Goal, g.ord = 0 ∧ s.goals.insert g = some r.1.goals := by
  simp only [createProject, ite_throw_eq_ok, throw_bind, bind_eq_ok, pure_eq_ok] at h
  obtain ⟨-, s₁, h₁, s₂, h₂, s₃, h₃, s₄, h₄, s₅, h₅, x, -, rfl⟩ := h
  unfold insertProject at h₁
  split at h₁
  · cases h₁
    obtain ⟨workspaces, rfl, -⟩ := insertWorkspaces_eq_ok h₂
    simp only [insertGoal, ite_error_eq_ok] at h₃
    obtain ⟨-, h₃⟩ := h₃
    obtain ⟨goals, hgoals, rfl⟩ := insertRow_eq_ok h₃
    obtain ⟨nodes, -, rfl, -⟩ := insertNode_eq_ok h₄
    simp only [insertProjectRuleset, ite_error_eq_ok] at h₅
    obtain ⟨-, h₅⟩ := h₅
    obtain ⟨rulesets, -, rfl⟩ := insertRow_eq_ok h₅
    exact ⟨_, rfl, hgoals⟩
  · cases h₁

theorem sound_treeStep (h : (GoalRun.mk s false).Sound) (hs : s.treeStep v = some t) :
    (GoalRun.mk t false).Sound := by
  cases v with
  | createProject app name description ws ids now =>
    rw [treeStep] at hs
    split at hs
    · obtain rfl := Option.some.inj hs
      exact h
    · rename_i t' p hr
      obtain rfl := Option.some.inj hs
      obtain ⟨g, hord, hinsert⟩ := createProject_goal hr
      refine ⟨Write.goalTrees h.1 (createProject_write hr), fun x hx => ?_⟩
      rcases (KeyedTable.mem_insert hinsert).1 hx with hx | rfl
      · exact h.2 x hx
      · exact hord.ge
  | goal v =>
    rw [treeStep, Option.bind_eq_some_iff] at hs
    obtain ⟨st, hst, hs⟩ := hs
    split_ifs at hs with hover
    obtain rfl := Option.some.inj hs
    have hsound := h.step hst
    exact ⟨hsound.1, hsound.2⟩

/-- What is reached are trees without a negative `ord`. -/
theorem sound_reached {vs : List TreeVerb} (hr : Runs.run treeStep empty vs = some s) :
    (GoalRun.mk s false).Sound :=
  Runs.run_keeps (I := fun s => (GoalRun.mk s false).Sound) (fun _ _ _ => sound_treeStep)
    ⟨wellFormedTrees_empty.goals, fun _ h => absurd h List.not_mem_nil⟩ hr

/-- There is a next `ord` in every group of siblings as long as none of them has the last. -/
theorem nextGoalOrd_le_iff {n : ℤ} (hn : 0 ≤ n) :
    (∀ p parent, s.nextGoalOrd p parent ≤ n) ↔ ∀ g ∈ s.goals.rows, g.ord < n := by
  have hnext (p : String) (parent : Option String) : s.nextGoalOrd p parent =
      (((s.goals.rows.filter fun g => g.projectId = p ∧ g.parentId = parent).map
        Goal.ord).max?.map (· + 1)).getD 0 := rfl
  constructor
  · intro h g hg
    have hle := h g.projectId g.parentId
    have hmem : g.ord ∈ (s.goals.rows.filter fun x => x.projectId = g.projectId ∧
        x.parentId = g.parentId).map Goal.ord :=
      List.mem_map.2 ⟨g, List.mem_filter.2 ⟨hg, by simp⟩, rfl⟩
    obtain ⟨m, hmax⟩ := Option.isSome_iff_exists.1 (List.isSome_max?_of_mem hmem)
    rw [hnext, hmax] at hle
    exact lt_of_le_of_lt ((List.max?_eq_some_iff.1 hmax).2 _ hmem) (Int.lt_iff_add_one_le.2 hle)
  · intro h p parent
    rcases hmax : ((s.goals.rows.filter fun g => g.projectId = p ∧ g.parentId = parent).map
        Goal.ord).max? with _ | m
    · rw [hnext, hmax]
      exact hn
    · rw [hnext, hmax]
      obtain ⟨g, hg, rfl⟩ := List.mem_map.1 (List.max?_eq_some_iff.1 hmax).1
      exact Int.lt_iff_add_one_le.1 (h g (List.mem_filter.1 hg).1)

/-- What is reached is listed in pre-order, and has room for a next goal in every group of siblings,
exactly where the prints of siblings are in the order of their `ord`s, siblings of one `ord` have
nothing below them, and no `ord` is the last. -/
theorem listed_reached_iff {vs : List TreeVerb} (hr : Runs.run treeStep empty vs = some s) :
    s.ListedTrees ↔ s.Orderly ∧ ∀ g ∈ s.goals.rows, g.ord < GoalRun.i64Max := by
  refine and_congr ?_ (nextGoalOrd_le_iff (by decide))
  rw [(sound_reached hr).listed_iff]
  exact and_iff_right rfl

/-- A project with two goals under its own. -/
def twoBelow : List TreeVerb :=
  [.createProject ⟨true, ["support"]⟩ "P" "" ["w"] ⟨"p", "root", "n", "r"⟩ 0,
    .goal (.createGoal "p" (some "root") .additional "A" "" "a" 1),
    .goal (.createGoal "p" (some "root") .additional "B" "" "b" 2)]

theorem listed_reached_below : ∃ s, Runs.run treeStep empty
      (twoBelow ++ [.goal (.createGoal "p" (some "a") .additional "C" "" "c" 3)]) = some s ∧
    s.ListedTrees := by
  let vs : List TreeVerb :=
    twoBelow ++ [.goal (.createGoal "p" (some "a") .additional "C" "" "c" 3)]
  have hcond : (Runs.run treeStep empty vs).any fun s =>
      decide (s.Orderly ∧ ∀ g ∈ s.goals.rows, g.ord < GoalRun.i64Max) := by decide +kernel
  obtain ⟨s, hs, h⟩ := (Option.any_eq_true _ _).1 hcond
  exact ⟨s, hs, (listed_reached_iff hs).2 (of_decide_eq_true h)⟩

/-- The two are given one `ord` and a goal below each: `A`, `B`, `C`, `D` is in no order of the
tree. -/
theorem equal_ords_split : ¬ ∀ (vs : List TreeVerb) (s : Store),
    Runs.run treeStep empty vs = some s → s.ListedTrees := by
  intro h
  let vs : List TreeVerb := twoBelow ++ [.goal (.moveGoal "b" (some "root") 0 3),
    .goal (.createGoal "p" (some "a") .additional "C" "" "c" 4),
    .goal (.createGoal "p" (some "b") .additional "D" "" "d" 5)]
  have hcond : (Runs.run treeStep empty vs).any fun s => decide ¬s.Orderly := by decide +kernel
  obtain ⟨s, hs, hno⟩ := (Option.any_eq_true _ _).1 hcond
  exact of_decide_eq_true hno ((sound_reached hs).listed_iff.1 (h vs s hs).1).2

end Store

end BuilderPro
