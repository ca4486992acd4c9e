import BuilderPro.Orchd.Trees

/-!
# Which goals can be moved where

`move_goal` looks for the goal among those above its new parent, `MAX_ANCESTOR_DEPTH` of them at
most: in a tree that deep it refuses a move that would close no cycle (`deep_move_refused`).
-/

namespace BuilderPro

open Results

namespace Store

/-- `p` is `g`, or below it. -/
def BelowOrSelf (s : Store) (g p : String) : Prop :=
  ∃ k, Forest.climb s.goalParent k p = some g

/-- The chain from a goal to the root has fewer goals than the walk has turns. -/
def WithinDepth (s : Store) (p : String) : Prop :=
  Forest.climb s.goalParent (maxAncestorDepth - 1) p = none

/-- The walk clears a node exactly where the target is not above it and its chain ends in time. -/
theorem ancestorWalk_eq_false {up : String → Option String} {tooDeep : OrchdPersistError}
    {target x : String} {n : ℕ} :
    ancestorWalk up tooDeep target (n + 1) (some x) = .ok false ↔
      (∀ k, Forest.climb up k x ≠ some target) ∧ Forest.climb up n x = none := by
  induction n generalizing x with
  | zero =>
    rw [ancestorWalk]
    constructor
    · intro h
      split_ifs at h
      · cases h
      · cases h
    · rintro ⟨-, h⟩
      cases h
  | succ n ih =>
    by_cases hx : x = target
    · subst hx
      rw [ancestorWalk, if_pos rfl]
      constructor
      · intro h
        cases h
      · rintro ⟨h, -⟩
        exact (h 0 rfl).elim
    rw [ancestorWalk, if_neg hx, Forest.climb_succ]
    rcases hup : up x with _ | y
    · have hclimb : ∀ k, Forest.climb up k x ≠ some target := by
        rintro (_ | k) h
        · exact hx (Option.some.inj h)
        · rw [Forest.climb_succ, hup] at h
          cases h
      exact iff_of_true rfl ⟨hclimb, rfl⟩
    · rw [ih, Option.bind_some]
      refine and_congr_left' ⟨fun h k => ?_, fun h k => ?_⟩
      · rcases k with _ | k
        · simpa using hx
        · rw [Forest.climb_succ, hup]
          exact h k
      · have := h (k + 1)
        rwa [Forest.climb_succ, hup] at this

theorem ancestorChainContains_eq_false {s : Store} {p g : String} :
    s.ancestorChainContains p g = .ok false ↔ ¬ s.BelowOrSelf g p ∧ s.WithinDepth p := by
  rw [ancestorChainContains, show maxAncestorDepth = 4095 + 1 from rfl, ancestorWalk_eq_false,
    BelowOrSelf, not_exists]
  rfl

variable {s : Store} {g p : Goal} {ord : ℤ}

/-- A goal of an active project moves under another exactly where the walk clears its parent. -/
theorem moveGoal_isOk_iff (hg : s.goals.lookup g.id = some g) (hp : s.goals.lookup p.id = some p)
    (hproject : p.projectId = g.projectId) (hactive : s.ensureProjectActive g.projectId = .ok ())
    (hadd : g.kind = .additional) (hord : 0 ≤ ord) (now : ℤ) :
    (∃ r, s.moveGoal g.id (some p.id) ord now = .ok r) ↔
      ¬ s.BelowOrSelf g.id p.id ∧ s.WithinDepth p.id := by
  have hload : s.loadActive g.id = .ok g := loadActive_eq_ok.2 ⟨hg, hactive⟩
  have hparent : ∀ message, s.ensureGoalParent g.projectId message (some p.id) = .ok () := by
    intro message
    simp [ensureGoalParent, hp, hproject]
  rw [← ancestorChainContains_eq_false]
  constructor
  · rintro ⟨r, hr⟩
    simp only [moveGoal, ite_throw_eq_ok, throw_bind, bind_eq_ok, pure_eq_ok] at hr
    obtain ⟨-, x, -, -, q, hq, -, -, below, hbelow, hnot, -⟩ := hr
    cases hq
    rw [hbelow, Bool.eq_false_iff.2 hnot]
  · intro hbelow
    refine ⟨(s.replaceRow { g with parentId := some p.id, ord := ord, updatedAt := now },
      { g with parentId := some p.id, ord := ord, updatedAt := now }), ?_⟩
    simp only [moveGoal, ite_throw_eq_ok, throw_bind, bind_eq_ok, pure_eq_ok]
    refine ⟨not_lt.2 hord, g, hload, by rw [hadd]; decide, p.id, rfl, (), hparent _, false,
      hbelow, Bool.false_ne_true, rfl⟩

/-! ### A chain as deep as the walk -/

def deepId (n : ℕ) : String := String.ofList (List.replicate (n + 1) 'x')

theorem deepId_injective : Function.Injective deepId := by
  intro m n h
  have hlen := congrArg List.length (String.ofList_injective h)
  simpa using hlen

def deepGoal (n : ℕ) : Goal where
  id := deepId n
  projectId := "p"
  parentId := if n = 0 then none else some (deepId (n - 1))
  kind := if n = 0 then .strategic else .additional
  title := ""
  body := ""
  ord := 0
  status := .active
  metricRefs := []
  createdAt := 0
  updatedAt := 0

/-- A goal beside the chain, under its root. -/
def besideGoal : Goal := { deepGoal 1 with id := "side" }

theorem deepId_ne_side (n : ℕ) : deepId n ≠ "side" := by
  intro h
  have hmem : 's' ∈ (deepId n).toList := by
    rw [h]
    decide
  rw [deepId, String.toList_ofList, List.mem_replicate] at hmem
  exact absurd hmem.2 (by decide)

/-- A project whose goals are a chain of 4096 and the one beside it. -/
def deepStore : Store :=
  { Store.empty with
    projects := ⟨[⟨"p", "", "", .active, 0, 0⟩], by simp⟩
    goals :=
      { rows := besideGoal :: (List.range 4096).map deepGoal
        nodup := by
          rw [List.map_cons, List.map_map, List.nodup_cons]
          refine ⟨fun h => ?_, List.nodup_range.map deepId_injective⟩
          obtain ⟨n, -, hn⟩ := List.mem_map.1 h
          exact deepId_ne_side n hn } }

theorem mem_deepStore {x : Goal} :
    x ∈ deepStore.goals.rows ↔ x = besideGoal ∨ ∃ n < 4096, deepGoal n = x := by
  simp only [deepStore, List.mem_cons, List.mem_map, List.mem_range]

theorem lookup_deepGoal {n : ℕ} (h : n < 4096) :
    deepStore.goals.lookup (deepId n) = some (deepGoal n) :=
  KeyedTable.lookup_eq_some.2 ⟨mem_deepStore.2 (.inr ⟨n, h, rfl⟩), rfl⟩

theorem lookup_besideGoal : deepStore.goals.lookup "side" = some besideGoal :=
  KeyedTable.lookup_eq_some.2 ⟨mem_deepStore.2 (.inl rfl), rfl⟩

theorem climb_deepStore {n k : ℕ} (h : n < 4096) (hk : k ≤ n) :
    Forest.climb deepStore.goalParent k (deepId n) = some (deepId (n - k)) := by
  induction k generalizing n with
  | zero => rfl
  | succ k ih =>
    have hup : deepStore.goalParent (deepId n) = some (deepId (n - 1)) := by
      rw [goalParent, lookup_deepGoal h, Option.bind_some, deepGoal]
      exact if_neg (by omega)
    rw [Forest.climb_succ, hup, Option.bind_some, ih (by omega) (by omega)]
    congr 2
    omega

theorem goalParent_root : deepStore.goalParent (deepId 0) = none := by
  rw [goalParent, lookup_deepGoal (by omega), Option.bind_some, deepGoal]
  rfl

theorem not_belowOrSelf_deep : ¬ deepStore.BelowOrSelf "side" (deepId 4095) := by
  rintro ⟨k, hk⟩
  by_cases hle : k ≤ 4095
  · rw [climb_deepStore (by omega) hle, Option.some.injEq] at hk
    exact deepId_ne_side _ hk
  · have hnone : Forest.climb deepStore.goalParent (4095 + 1) (deepId 4095) = none := by
      rw [Forest.climb_add, climb_deepStore (by omega) le_rfl, Option.bind_some, Forest.climb_one]
      exact goalParent_root
    rw [Forest.climb_none_of_le hnone (by omega)] at hk
    cases hk

theorem deepGoal_parent {n : ℕ} {q : String} (hn : n < 4096)
    (h : (deepGoal n).parentId = some q) : ∃ m < 4096, q = deepId m ∧ m < n := by
  unfold deepGoal at h
  dsimp only at h
  split_ifs at h with hzero
  exact ⟨n - 1, by omega, (Option.some.inj h).symm, by omega⟩

theorem deepId_length (n : ℕ) : (deepId n).toList.length = n + 1 := by
  rw [deepId, String.toList_ofList, List.length_replicate]

/-- The goals of the project are one tree. -/
theorem goalTrees_deepStore : deepStore.GoalTrees where
  owned g hg := by
    rcases mem_deepStore.1 hg with rfl | ⟨n, -, rfl⟩
    · rfl
    · rfl
  strategic p hp := by
    obtain rfl : "p" = p := by
      obtain ⟨x, hx⟩ := Option.isSome_iff_exists.1 hp
      obtain ⟨hmem, hid⟩ := KeyedTable.lookup_eq_some.1 hx
      rw [← hid, List.mem_singleton.1 hmem]
    exact ⟨deepGoal 0, mem_deepStore.2 (.inr ⟨0, by omega, rfl⟩), rfl, rfl⟩
  only g hg h hh hgk hhk _ := by
    have hroot : ∀ x ∈ deepStore.goals.rows, x.kind = .strategic → x = deepGoal 0 := by
      intro x hx hkind
      rcases mem_deepStore.1 hx with rfl | ⟨n, -, rfl⟩
      · cases hkind
      · by_cases hn : n = 0
        · rw [hn]
        · simp [deepGoal, hn] at hkind
    rw [hroot g hg hgk, hroot h hh hhk]
  root g hg := by
    rcases mem_deepStore.1 hg with rfl | ⟨n, -, rfl⟩
    · simp [besideGoal, deepGoal]
    · by_cases hn : n = 0 <;> simp [deepGoal, hn]
  trees :=
    { parent_mem := fun g hg q hq => by
        rcases mem_deepStore.1 hg with rfl | ⟨n, hn, rfl⟩
        · obtain rfl : deepId 0 = q := Option.some.inj hq
          exact ⟨deepGoal 0, lookup_deepGoal (by omega), rfl⟩
        · obtain ⟨m, hm, rfl, -⟩ := deepGoal_parent hn hq
          exact ⟨deepGoal m, lookup_deepGoal hm, rfl⟩
      acyclic := by
        refine Forest.Acyclic.of_rank (r := fun id => id.toList.length) fun id q hq => ?_
        obtain ⟨g, hg, hparent⟩ := KeyedTable.link_eq_some.1 hq
        obtain ⟨hmem, rfl⟩ := KeyedTable.lookup_eq_some.1 hg
        rcases mem_deepStore.1 hmem with rfl | ⟨n, hn, rfl⟩
        · obtain rfl : deepId 0 = q := Option.some.inj hparent
          decide
        · obtain ⟨m, -, rfl, hm⟩ := deepGoal_parent hn hparent
          have hlen : (deepGoal n).id.toList.length = n + 1 := deepId_length n
          rw [deepId_length, hlen]
          omega }

/-- The goal beside the chain cannot go under the chain's last, though it is not above it. -/
theorem deep_move_refused : deepStore.GoalTrees ∧
    deepStore.goals.lookup "side" = some besideGoal ∧ besideGoal.kind = .additional ∧
    deepStore.goals.lookup (deepId 4095) = some (deepGoal 4095) ∧
    (deepGoal 4095).projectId = besideGoal.projectId ∧
    deepStore.ensureProjectActive besideGoal.projectId = .ok () ∧
    ¬ deepStore.BelowOrSelf "side" (deepId 4095) ∧
    ¬ ∃ r, deepStore.moveGoal "side" (some (deepId 4095)) 0 0 = .ok r := by
  refine ⟨goalTrees_deepStore, lookup_besideGoal, rfl, lookup_deepGoal (by omega), rfl, rfl,
    not_belowOrSelf_deep, fun h => ?_⟩
  have hwithin : deepStore.WithinDepth (deepId 4095) :=
    ((moveGoal_isOk_iff (g := besideGoal) (p := deepGoal 4095) lookup_besideGoal
      (lookup_deepGoal (by omega)) rfl rfl rfl le_rfl 0).1 h).2
  rw [WithinDepth, maxAncestorDepth, climb_deepStore (by omega) le_rfl] at hwithin
  cases hwithin

end Store

namespace Orchd

variable {host : Host} {o : Orchd} {g p : Goal} {ord : ℤ}

/-- A goal of an active project, other than its root, moves under any goal of the project that is
neither itself nor below it and lies less than 4096 goals deep; a refused move changes nothing. -/
theorem moveGoal_exact (hg : o.db.goals.lookup g.id = some g)
    (hp : o.db.goals.lookup p.id = some p) (hproject : p.projectId = g.projectId)
    (hactive : o.db.ensureProjectActive g.projectId = .ok ()) (hadd : g.kind = .additional)
    (hord : 0 ≤ ord) (now : ℤ) :
    ((∃ o', o.handle host (.moveGoal g.id (some p.id) ord now) = .ok o') ↔
      ¬ o.db.BelowOrSelf g.id p.id ∧ o.db.WithinDepth p.id) ∧
    (¬ (¬ o.db.BelowOrSelf g.id p.id ∧ o.db.WithinDepth p.id) →
      o.step host (.moveGoal g.id (some p.id) ord now) = some o) := by
  have hok : (∃ o', o.handle host (.moveGoal g.id (some p.id) ord now) = .ok o') ↔
      ¬ o.db.BelowOrSelf g.id p.id ∧ o.db.WithinDepth p.id := by
    rw [← Store.moveGoal_isOk_iff hg hp hproject hactive hadd hord now]
    constructor
    · rintro ⟨o', h⟩
      obtain ⟨r, hr, -⟩ := onStore_eq_ok.1 h
      exact ⟨r, hr⟩
    · rintro ⟨r, hr⟩
      exact ⟨_, onStore_eq_ok.2 ⟨r, hr, rfl⟩⟩
  refine ⟨hok, fun hno => ?_⟩
  rw [step]
  rcases h : o.handle host (.moveGoal g.id (some p.id) ord now) with e | o'
  · rfl
  · exact (hno (hok.1 ⟨o', h⟩)).elim

/-- The goal beside the chain moves under the goal one above the chain's last. -/
theorem moveGoal_exact_deep :
    ((∃ o', (⟨Store.deepStore, fun _ => .missing⟩ : Orchd).handle plainHost
        (.moveGoal "side" (some (Store.deepId 4094)) 7 0) = .ok o') ↔
      ¬ Store.deepStore.BelowOrSelf "side" (Store.deepId 4094) ∧
        Store.deepStore.WithinDepth (Store.deepId 4094)) ∧
    (¬ (¬ Store.deepStore.BelowOrSelf "side" (Store.deepId 4094) ∧
        Store.deepStore.WithinDepth (Store.deepId 4094)) →
      (⟨Store.deepStore, fun _ => .missing⟩ : Orchd).step plainHost
        (.moveGoal "side" (some (Store.deepId 4094)) 7 0)
          = some ⟨Store.deepStore, fun _ => .missing⟩) :=
  moveGoal_exact (g := Store.besideGoal) (p := Store.deepGoal 4094)
    (o := ⟨Store.deepStore, fun _ => .missing⟩) Store.lookup_besideGoal
    (Store.lookup_deepGoal (by omega)) rfl rfl rfl (by decide) 0

end Orchd

end BuilderPro
