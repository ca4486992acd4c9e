import BuilderPro.Lib.RankedList
import BuilderPro.Lib.Runs
import BuilderPro.Orchd.Trees

/-!
# The goal tree and its clicks

A click on ▲ or ▼ in `GoalTree.tsx` picks the goal's neighbor from the list it sees and sends two
`MoveGoal` requests with the `ord`s of that list, the second when the first is answered.  A step is
in turn as long as the clicks do not overlap and none is broken off between its requests
(`GoalTreeState.InTurn`).
-/

namespace BuilderPro

/-- The siblings of a goal in a list, in the order they are displayed. -/
def siblingsOf (goals : List Goal) (goal : Goal) : List Goal :=
  (goals.filter fun g => g.parentId = goal.parentId).insertionSort fun a b => a.ord ≤ b.ord

/-- The neighbor of a goal, at the place that is picked for the goal's own. -/
def neighborOf (pick : ℕ → Option ℕ) (goals : List Goal) (goal : Goal) : Option Goal :=
  ((siblingsOf goals goal).findIdx? fun g => g.id = goal.id).bind fun idx =>
    (pick idx).bind fun j => (siblingsOf goals goal)[j]?

/-- The neighbor of `handleMoveUp`. -/
def prevSibling : List Goal → Goal → Option Goal :=
  neighborOf fun idx => if 0 < idx then some (idx - 1) else none

/-- The neighbor of `handleMoveDown`. -/
def nextSibling : List Goal → Goal → Option Goal := neighborOf fun idx => some (idx + 1)

theorem perm_siblingsOf (goals : List Goal) (goal : Goal) :
    (siblingsOf goals goal).Perm (goals.filter fun g => g.parentId = goal.parentId) :=
  List.perm_insertionSort _ _

theorem neighborOf_spec {pick : ℕ → Option ℕ} {goals : List Goal} {g n : Goal}
    (hpick : ∀ i, pick i ≠ some i) (hnodup : (goals.map Goal.id).Nodup)
    (h : neighborOf pick goals g = some n) :
    n ∈ goals ∧ n.parentId = g.parentId ∧ n.id ≠ g.id := by
  simp only [neighborOf, Option.bind_eq_some_iff] at h
  obtain ⟨idx, hidx, j, hj, hn⟩ := h
  have hmem : n ∈ goals ∧ n.parentId = g.parentId := by
    simpa using (perm_siblingsOf goals g).subset (List.mem_of_getElem? hn)
  refine ⟨hmem.1, hmem.2, fun hid => hpick idx ?_⟩
  -- the goal itself stands at `idx`, and nowhere else
  have hnodup' : ((siblingsOf goals g).map Goal.id).Nodup :=
    ((perm_siblingsOf goals g).map _).nodup_iff.2 (hnodup.sublist (List.filter_sublist.map _))
  obtain ⟨hlt, hg, -⟩ := List.findIdx?_eq_some_iff_getElem.1 hidx
  have heq : ((siblingsOf goals g).map Goal.id)[idx]? = ((siblingsOf goals g).map Goal.id)[j]? := by
    rw [List.getElem?_map, List.getElem?_map, hn, List.getElem?_eq_getElem hlt]
    simpa [hid] using hg
  obtain rfl := (List.getElem?_inj (by simpa using hlt) hnodup').1 heq
  exact hj

theorem prevSibling_spec {goals : List Goal} {g n : Goal} (hnodup : (goals.map Goal.id).Nodup)
    (h : prevSibling goals g = some n) : n ∈ goals ∧ n.parentId = g.parentId ∧ n.id ≠ g.id := by
  refine neighborOf_spec (fun i hi => ?_) hnodup h
  obtain ⟨hlt, hi⟩ := Option.ite_none_right_eq_some.1 hi
  have := Option.some.inj hi
  omega

theorem nextSibling_spec {goals : List Goal} {g n : Goal} (hnodup : (goals.map Goal.id).Nodup)
    (h : nextSibling goals g = some n) : n ∈ goals ∧ n.parentId = g.parentId ∧ n.id ≠ g.id := by
  refine neighborOf_spec (fun i hi => ?_) hnodup h
  have := Option.some.inj hi
  omega

inductive SwapStage
  /-- The request that moves the goal is on its way. -/
  | first
  /-- It was granted; the one that moves the neighbor is on its way, or about to be sent. -/
  | second
  /-- That was granted, too. -/
  | granted
  deriving DecidableEq

/-- A call of `swapWithNeighbor`, with the goals as the click saw them. -/
structure Swap where
  no : ℕ
  goal : Goal
  neighbor : Goal
  stage : SwapStage
  deriving DecidableEq

namespace Swap

variable (w : Swap)

/-- The goal that is moved next, and the `ord` it gets. -/
def request : Option (Goal × ℤ) :=
  match w.stage with
  | .first => some (w.goal, w.neighbor.ord)
  | .second => some (w.neighbor, w.goal.ord)
  | .granted => none

def advance : Swap := { w with stage := if w.stage = .first then .second else .granted }

/-- The `ord` that a goal had before. -/
def captured (id : String) : Option ℤ :=
  if id = w.goal.id then some w.goal.ord
  else if id = w.neighbor.id then some w.neighbor.ord
  else none

/-- The `ord` that the granted requests gave a goal. -/
def given (id : String) : Option ℤ :=
  if id = w.goal.id then some w.neighbor.ord
  else if id = w.neighbor.id then
    some (if w.stage = .granted then w.goal.ord else w.neighbor.ord)
  else none

end Swap

/-- The daemon's store, the goals on screen and the clicks whose requests are not all answered. -/
structure GoalTreeState where
  db : Store
  /-- Every id that was drawn for a goal. -/
  ids : List String
  replies : List (String × List Goal)
  goalsByProject : String → List Goal
  swaps : KeyedTable Swap.no
  /-- The goals under each parent, in the order that creations and successful clicks make. -/
  order : String → Option String → List String

inductive GoalTreeAction
  | createGoal (projectId : String) (parentId : Option String) (kind : GoalKind)
      (title body id : String) (now : ℤ)
  | deleteGoal (id : String)
  /-- The daemon answers `ListGoals`. -/
  | listGoals (projectId : String)
  /-- A list on its way is taken over. -/
  | refreshGoals (i : ℕ)
  | moveUp (no : ℕ) (projectId id : String)
  | moveDown (no : ℕ) (projectId id : String)
  /-- The daemon serves the request of a click. -/
  | serve (no : ℕ) (now : ℤ)
  /-- A request is lost, refused, or served and its answer lost. -/
  | fail (no : ℕ)
  /-- The second request is answered. -/
  | succeed (no : ℕ)

namespace Swap

variable {w : Swap} {id : String}

theorem captured_eq_none : w.captured id = none ↔ id ≠ w.goal.id ∧ id ≠ w.neighbor.id := by
  unfold captured
  by_cases hg : id = w.goal.id
  · simp [hg]
  · by_cases hn : id = w.neighbor.id
    · have hne : w.neighbor.id ≠ w.goal.id := hn ▸ hg
      simp [hn, hne]
    · simp [hg, hn]

@[simp] theorem captured_goal : w.captured w.goal.id = some w.goal.ord := if_pos rfl

theorem captured_neighbor (h : w.neighbor.id ≠ w.goal.id) :
    w.captured w.neighbor.id = some w.neighbor.ord := by
  rw [captured, if_neg h, if_pos rfl]

@[simp] theorem given_goal : w.given w.goal.id = some w.neighbor.ord := if_pos rfl

theorem given_neighbor (h : w.neighbor.id ≠ w.goal.id) : w.given w.neighbor.id =
    some (if w.stage = .granted then w.goal.ord else w.neighbor.ord) := by
  rw [given, if_neg h, if_pos rfl]

theorem mem_captured {ord : ℤ} (h : ord ∈ w.captured id) :
    (id = w.goal.id ∧ ord = w.goal.ord) ∨ (id = w.neighbor.id ∧ ord = w.neighbor.ord) := by
  unfold captured at h
  split_ifs at h with hg hn
  · exact .inl ⟨hg, (Option.mem_some_iff.1 h).symm⟩
  · exact .inr ⟨hn, (Option.mem_some_iff.1 h).symm⟩
  · cases h

theorem mem_given {ord : ℤ} (h : ord ∈ w.given id) :
    (id = w.goal.id ∧ ord = w.neighbor.ord) ∨ (id = w.neighbor.id ∧
      ord = if w.stage = .granted then w.goal.ord else w.neighbor.ord) := by
  rw [given] at h
  by_cases hg : id = w.goal.id
  · rw [if_pos hg] at h
    exact .inl ⟨hg, (Option.mem_some_iff.1 h).symm⟩
  · rw [if_neg hg] at h
    obtain ⟨hn, h⟩ := Option.ite_none_right_eq_some.1 h
    exact .inr ⟨hn, (Option.some.inj h).symm⟩

theorem captured_ne_none_of_given {ord : ℤ} (h : ord ∈ w.given id) : w.captured id ≠ none := by
  rw [ne_eq, captured_eq_none]
  rintro ⟨hgoal, hneighbor⟩
  simp [given, hgoal, hneighbor] at h

@[simp] theorem advance_no : w.advance.no = w.no := rfl

theorem advance_stage (w : Swap) : w.advance.stage ≠ .first := by
  unfold advance
  split_ifs <;> simp

@[simp] theorem advance_captured : w.advance.captured id = w.captured id := rfl

end Swap

namespace GoalTreeState

def init (s : Store) : GoalTreeState where
  db := s
  ids := s.goals.rows.map Goal.id
  replies := []
  goalsByProject _ := []
  swaps := .empty
  order projectId parentId :=
    ((s.goals.rows.filter fun g => g.projectId = projectId ∧ g.parentId = parentId).insertionSort
      fun a b => a.ord ≤ b.ord).map Goal.id

variable (st : GoalTreeState)

def click (no : ℕ) (projectId id : String) (neighbor : List Goal → Goal → Option Goal) :
    Option GoalTreeState :=
  ((st.goalsByProject projectId).find? fun g => g.id = id).bind fun goal =>
    match neighbor (st.goalsByProject projectId) goal with
    | some n => (st.swaps.insert ⟨no, goal, n, .first⟩).map fun swaps => { st with swaps := swaps }
    | none => some st

def step : GoalTreeAction → Option GoalTreeState
  | .createGoal projectId parentId kind title body id now =>
    if id ∈ st.ids then none
    else
      match st.db.createGoal projectId parentId kind title body id now with
      | .ok (db, g) =>
        some
          { st with
            db := db, ids := id :: st.ids
            order := fun p q =>
              if p = projectId ∧ q = parentId then st.order p q ++ [g.id] else st.order p q }
      | .error _ => some { st with ids := id :: st.ids }
  | .deleteGoal id =>
    match st.db.deleteGoal id with
    | .ok db =>
      some
        { st with
          db := db
          order := fun p q => (st.order p q).filter fun x => (db.goals.lookup x).isSome }
    | .error _ => some st
  | .listGoals projectId =>
    match st.db.listGoals projectId with
    | .ok goals => some { st with replies := st.replies ++ [(projectId, goals)] }
    | .error _ => some st
  | .refreshGoals i =>
    st.replies[i]?.map fun r =>
      { st with
        replies := st.replies.eraseIdx i
        goalsByProject := Function.update st.goalsByProject r.1 r.2 }
  | .moveUp no projectId id => st.click no projectId id prevSibling
  | .moveDown no projectId id => st.click no projectId id nextSibling
  | .serve no now =>
    (st.swaps.lookup no).bind fun w =>
      w.request.map fun r =>
        match st.db.moveGoal r.1.id r.1.parentId r.2 now with
        | .ok (db, _) => { st with db := db, swaps := st.swaps.replace w.advance }
        | .error _ => { st with swaps := st.swaps.erase no }
  | .fail no => (st.swaps.lookup no).map fun _ => { st with swaps := st.swaps.erase no }
  | .succeed no =>
    (st.swaps.lookup no).bind fun w =>
      if w.stage = .granted then
        some
          { st with
            swaps := st.swaps.erase no
            order := fun p q => exchange w.goal.id w.neighbor.id (st.order p q) }
      else none

def AtRest : Prop := st.swaps.rows = []

/-- A click is between its moves, or its moves are made and not known to be, and both its goals are
still there. -/
def UnderWay (w : Swap) : Prop :=
  w.stage ≠ .first ∧ (st.db.goals.lookup w.goal.id).isSome ∧
    (st.db.goals.lookup w.neighbor.id).isSome

instance (w : Swap) : Decidable (st.UnderWay w) := inferInstanceAs (Decidable (_ ∧ _))

/-- The goal is in no such click. -/
def Idle (id : String) : Prop := ∀ w ∈ st.swaps.rows, st.UnderWay w → w.captured id = none

instance (id : String) : Decidable (st.Idle id) := inferInstanceAs (Decidable (∀ _ ∈ _, _))

/-- The `ord` of a goal, were the clicks under way undone. -/
def settledOrd (g : Goal) : ℤ :=
  ((st.swaps.rows.filter fun w => st.UnderWay w).findSome? fun w => w.captured g.id).getD g.ord

/-- Between a goal's place and an `ord` stands no other sibling, one that is about to go apart. -/
def Clear (g : Goal) (ord : ℤ) (gone : Option String) : Prop :=
  ∀ x ∈ st.db.goals.rows, x.projectId = g.projectId → x.parentId = g.parentId → x.id ≠ g.id →
    some x.id ≠ gone → ¬Between (st.settledOrd g) ord (st.settledOrd x)

instance (g : Goal) (ord : ℤ) (gone : Option String) : Decidable (st.Clear g ord gone) :=
  inferInstanceAs (Decidable (∀ _ ∈ _, _))

/-- A request of a click comes in turn.  The first one meets both goals as the click saw them, in no
other click under way; the second one is granted.  Where the other goal is deleted, the move leaves
the goal between the same siblings. -/
def MovesInTurn (w : Swap) (now : ℤ) : Prop :=
  match w.stage with
  | .first =>
    ∀ g ∈ st.db.goals.lookup w.goal.id, st.Idle g.id ∧
      if (st.db.goals.lookup w.neighbor.id).isSome then
        g.ord = w.goal.ord ∧ ∀ n ∈ st.db.goals.lookup w.neighbor.id,
          n.ord = w.neighbor.ord ∧ st.Idle n.id
      else st.Clear g w.neighbor.ord none
  | .second =>
    if st.UnderWay w then
      (st.db.moveGoal w.neighbor.id w.neighbor.parentId w.goal.ord now).isOk = true
    else ∀ n ∈ st.db.goals.lookup w.neighbor.id, st.Idle n.id ∧ st.Clear n w.goal.ord none
  | .granted => True

instance (w : Swap) (now : ℤ) : Decidable (st.MovesInTurn w now) := by
  unfold MovesInTurn
  split <;> infer_instance

/-- What keeps the orders distinct and as the clicks make them.  A goal is created behind its
siblings, wherever the clicks under way had them; a goal that a click under way has moved, or moved
its neighbor past, is deleted when the other one stays between the same siblings; no request fails
in a click under way. -/
def InTurn : GoalTreeAction → Prop
  | .createGoal projectId parentId _ _ _ _ _ =>
    ∀ g ∈ st.db.goals.rows, g.projectId = projectId → g.parentId = parentId →
      st.settledOrd g < st.db.nextGoalOrd projectId parentId
  | .deleteGoal id =>
    ∀ w ∈ st.swaps.rows, st.UnderWay w → w.captured id ≠ none →
      ∀ g ∈ st.db.goals.rows, g.id ≠ id → w.captured g.id ≠ none → st.Clear g g.ord (some id)
  | .serve no now => ∀ w ∈ st.swaps.lookup no, st.MovesInTurn w now
  | .fail no => ∀ w ∈ st.swaps.lookup no, ¬st.UnderWay w
  | _ => True

instance : (a : GoalTreeAction) → Decidable (st.InTurn a)
  | .createGoal .. => inferInstanceAs (Decidable (∀ _ ∈ _, _))
  | .deleteGoal _ => inferInstanceAs (Decidable (∀ _ ∈ _, _))
  | .serve _ _ => inferInstanceAs (Decidable (∀ _ ∈ _, _))
  | .fail _ => inferInstanceAs (Decidable (∀ _ ∈ _, _))
  | .listGoals _ | .refreshGoals _ | .moveUp .. | .moveDown .. | .succeed _ => isTrue trivial

/-- A goal of a list is the one that its id stands for in the store, if that is still there. -/
def Known (g : Goal) : Prop :=
  g.id ∈ st.ids ∧
    ∀ x, st.db.goals.lookup g.id = some x → x.projectId = g.projectId ∧ x.parentId = g.parentId

def Listed (projectId : String) (goals : List Goal) : Prop :=
  (goals.map Goal.id).Nodup ∧ ∀ g ∈ goals, g.projectId = projectId ∧ st.Known g

def SiblingPair (w : Swap) : Prop :=
  st.Known w.goal ∧ st.Known w.neighbor ∧ w.neighbor.id ≠ w.goal.id ∧
    w.neighbor.projectId = w.goal.projectId ∧ w.neighbor.parentId = w.goal.parentId

/-- What the lists and the clicks hold are goals of the store. -/
structure Seen : Prop where
  trees : st.db.GoalTrees
  ids : ∀ g ∈ st.db.goals.rows, g.id ∈ st.ids
  replies : ∀ r ∈ st.replies, st.Listed r.1 r.2
  lists : ∀ p, st.Listed p (st.goalsByProject p)
  pairs : ∀ w ∈ st.swaps.rows, st.SiblingPair w

/-- The `ord` of an id, were the clicks under way undone. -/
def rank (id : String) : ℤ := (st.db.goals.lookup id).elim 0 st.settledOrd

/-- The clicks under way have no goal in common. -/
def Apart : Prop := ∀ w ∈ st.swaps.rows, ∀ w' ∈ st.swaps.rows, st.UnderWay w → st.UnderWay w' →
  ∀ id, w.captured id ≠ none → w'.captured id ≠ none → w = w'

/-- A click under way has seen the goal with this `ord`. -/
def Holds (id : String) (ord : ℤ) : Prop :=
  ∃ w ∈ st.swaps.rows, st.UnderWay w ∧ w.captured id = some ord

/-- The clicks under way stand where their requests put them; without them, the goals under a
parent are in order. -/
structure Ordered : Prop where
  apart : st.Apart
  given : ∀ w ∈ st.swaps.rows, st.UnderWay w → ∀ g ∈ st.db.goals.rows, ∀ ord ∈ w.given g.id,
    g.ord = ord
  mem : ∀ p q id, id ∈ st.order p q ↔
    ∃ g, st.db.goals.lookup id = some g ∧ g.projectId = p ∧ g.parentId = q
  ranked : ∀ p q, Ranked st.rank (st.order p q)

variable {st} {st' : GoalTreeState}

end GoalTreeState

end BuilderPro
