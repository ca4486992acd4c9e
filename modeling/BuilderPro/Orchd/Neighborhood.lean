import Mathlib.Combinatorics.SimpleGraph.Metric
import Mathlib.Data.Set.Card
import BuilderPro.Lib.RecursiveQuery
import BuilderPro.Orchd.Graph

/-!
# What is near a node

`neighborhood` walks the edges from a node in both directions with a recursive query, and then asks
for the nodes it came to and the edges between them, naming each node as a parameter.  It answers
the nodes within the distance and the edges between them, unless they are more than a statement has
parameters for.
-/

namespace BuilderPro

structure GraphNeighborhood where
  rootId : String
  nodes : List GraphNode
  edges : List GraphEdge

/-- `SQLITE_MAX_VARIABLE_NUMBER`, as SQLite is built by default. -/
def maxVariableNumber : ℕ := 32766

/-- `Connection::prepare`, of a statement with so many parameters. -/
def prepare (parameters : ℕ) : Except OrchdPersistError Unit :=
  if maxVariableNumber < parameters then .error (.sql "too many SQL variables") else .ok ()

/-- The two recursive terms of `reach`, from one row. -/
def reachStep (edges : List GraphEdge) (depth : ℕ) (r : String × ℕ) : List (String × ℕ) :=
  if r.2 < depth then
    ((edges.filter fun e => e.sourceNodeId = r.1).map fun e => (e.targetNodeId, r.2 + 1)) ++
      (edges.filter fun e => e.targetNodeId = r.1).map fun e => (e.sourceNodeId, r.2 + 1)
  else []

/-- A row more than there can be. -/
def reachRounds (edges : List GraphEdge) (depth : ℕ) : ℕ :=
  (2 * edges.length + 1) * (depth + 1) + 1

/-- `SELECT DISTINCT node_id FROM reach`; none if the recursion has not ended by then. -/
def reachIds (edges : List GraphEdge) (nodeId : String) (depth : ℕ) : Option (List String) :=
  (RecursiveQuery.query (reachStep edges depth) (reachRounds edges depth) [(nodeId, 0)]).map
    fun rows => (rows.map Prod.fst).dedup

namespace Store

variable (s : Store)

def neighborhood (nodeId : String) (depth : ℕ) : Except OrchdPersistError GraphNeighborhood := do
  let _ ← s.nodeProjectId nodeId
  let depth := min depth 6
  match reachIds s.edges.rows nodeId depth with
  | none => throw (.sql "interrupted")
  | some ids =>
    if ids = [] then return ⟨nodeId, [], []⟩
    prepare ids.length
    let nodes := s.nodes.rows.filter fun n => n.id ∈ ids
    prepare (ids.length + ids.length)
    let edges := s.edges.rows.filter fun e => e.sourceNodeId ∈ ids ∧ e.targetNodeId ∈ ids
    return ⟨nodeId, nodes, edges⟩

/-! ## The graph -/

/-- The nodes, two of which are next to each other if there is an edge from one to the other. -/
def graph : SimpleGraph String :=
  .fromRel fun a b => ∃ e ∈ s.edges.rows, e.sourceNodeId = a ∧ e.targetNodeId = b

/-- The nodes within a distance. -/
def within (root : String) (k : ℕ) : Set String := {id | s.graph.edist root id ≤ k}

/-- A neighborhood is what lies within the distance, each node and each edge once. -/
structure IsNeighborhood (root : String) (k : ℕ) (nb : GraphNeighborhood) : Prop where
  root_eq : nb.rootId = root
  nodup_nodes : nb.nodes.Nodup
  mem_nodes : ∀ n, n ∈ nb.nodes ↔ n ∈ s.nodes.rows ∧ n.id ∈ s.within root k
  nodup_edges : nb.edges.Nodup
  mem_edges : ∀ e, e ∈ nb.edges ↔ e ∈ s.edges.rows ∧
    e.sourceNodeId ∈ s.within root k ∧ e.targetNodeId ∈ s.within root k

variable {s} {edges : List GraphEdge} {depth k : ℕ} {root id a b : String} {r r' : String × ℕ}

open RecursiveQuery

/-- A row follows another over an edge, in one direction or the other. -/
theorem mem_reachStep : r' ∈ reachStep edges depth r ↔
    r.2 < depth ∧ r'.2 = r.2 + 1 ∧
      ∃ e ∈ edges, (e.sourceNodeId = r.1 ∧ e.targetNodeId = r'.1) ∨
        (e.targetNodeId = r.1 ∧ e.sourceNodeId = r'.1) := by
  obtain ⟨id, h⟩ := r
  obtain ⟨id', h'⟩ := r'
  unfold reachStep
  split_ifs with hdepth
  · simp only [List.mem_append, List.mem_map, List.mem_filter, decide_eq_true_iff, Prod.mk.injEq]
    constructor
    · rintro (⟨e, ⟨he, hid⟩, hid', rfl⟩ | ⟨e, ⟨he, hid⟩, hid', rfl⟩)
      · exact ⟨hdepth, rfl, e, he, .inl ⟨hid, hid'⟩⟩
      · exact ⟨hdepth, rfl, e, he, .inr ⟨hid, hid'⟩⟩
    · rintro ⟨-, rfl, e, he, ⟨hid, hid'⟩ | ⟨hid, hid'⟩⟩
      · exact .inl ⟨e, ⟨he, hid⟩, hid', rfl⟩
      · exact .inr ⟨e, ⟨he, hid⟩, hid', rfl⟩
  · exact iff_of_false List.not_mem_nil fun h => hdepth h.1

/-- Where an edge leads is at most one hop away. -/
theorem edist_le_one {e : GraphEdge} (he : e ∈ s.edges.rows)
    (hends : (e.sourceNodeId = a ∧ e.targetNodeId = b) ∨
      (e.targetNodeId = a ∧ e.sourceNodeId = b)) : s.graph.edist a b ≤ 1 := by
  rw [SimpleGraph.edist_le_one_iff_adj_or_eq]
  by_cases hab : a = b
  · exact .inr hab
  · left
    rw [graph, SimpleGraph.fromRel_adj]
    refine ⟨hab, ?_⟩
    rcases hends with hends | hends
    · exact .inl ⟨e, he, hends⟩
    · exact .inr ⟨e, he, hends.2, hends.1⟩

/-- A row counts no fewer hops than there are to its node. -/
theorem edist_le_of_reached (h : Reached (reachStep s.edges.rows k) [(root, 0)] r) :
    r.2 ≤ k ∧ s.graph.edist root r.1 ≤ r.2 := by
  obtain ⟨first, hfirst, hr⟩ := h
  rw [List.mem_singleton] at hfirst
  subst hfirst
  induction hr with
  | refl => simp
  | @tail r r' _ hstep ih =>
    obtain ⟨hlt, hhop, e, he, hends⟩ := mem_reachStep.1 hstep
    refine ⟨by omega, ?_⟩
    calc s.graph.edist root r'.1
        ≤ s.graph.edist root r.1 + s.graph.edist r.1 r'.1 := SimpleGraph.edist_triangle
      _ ≤ r.2 + 1 := add_le_add ih.2 (edist_le_one he hends)
      _ = r'.2 := by rw [hhop]; rfl

/-- Every walk that does not exceed the depth is walked. -/
theorem reached_of_walk (w : s.graph.Walk a b) {h : ℕ} (hlen : h + w.length ≤ k)
    (ha : Reached (reachStep s.edges.rows k) [(root, 0)] (a, h)) :
    Reached (reachStep s.edges.rows k) [(root, 0)] (b, h + w.length) := by
  induction w generalizing h with
  | nil => exact ha
  | @cons a c b hadj w ih =>
    rw [SimpleGraph.Walk.length_cons] at hlen ⊢
    have hstep : Follows (reachStep s.edges.rows k) (a, h) (c, h + 1) := by
      refine mem_reachStep.2 ⟨by simp only; omega, rfl, ?_⟩
      rw [graph, SimpleGraph.fromRel_adj] at hadj
      rcases hadj.2 with ⟨e, he, hends⟩ | ⟨e, he, hends⟩
      · exact ⟨e, he, .inl hends⟩
      · exact ⟨e, he, .inr ⟨hends.2, hends.1⟩⟩
    obtain ⟨first, hfirst, hr⟩ := ha
    have hnext := @ih (h + 1) (by omega) ⟨first, hfirst, hr.tail hstep⟩
    rwa [Nat.add_assoc, Nat.add_comm 1] at hnext

theorem exists_reached_iff :
    (∃ h, Reached (reachStep s.edges.rows k) [(root, 0)] (id, h)) ↔ id ∈ s.within root k := by
  constructor
  · rintro ⟨h, hreached⟩
    obtain ⟨hle, hdist⟩ := edist_le_of_reached hreached
    exact hdist.trans (by exact_mod_cast hle)
  · intro hdist
    have hdist : s.graph.edist root id ≤ k := hdist
    have hne : s.graph.edist root id ≠ ⊤ := ne_top_of_le_ne_top (ENat.natCast_ne_top k) hdist
    obtain ⟨w, hw⟩ := SimpleGraph.exists_walk_of_edist_ne_top hne
    have hlen : 0 + w.length ≤ k := by
      rw [← hw] at hdist
      rw [Nat.zero_add]
      exact_mod_cast hdist
    exact ⟨_, reached_of_walk w hlen ⟨(root, 0), List.mem_singleton_self _, .refl⟩⟩

/-- The recursion ends, with the nodes within the distance. -/
theorem exists_reachIds (s : Store) (root : String) (k : ℕ) :
    ∃ ids, reachIds s.edges.rows root k = some ids ∧ ids.Nodup ∧
      ∀ id, id ∈ ids ↔ id ∈ s.within root k := by
  let possible := (root :: s.edges.rows.flatMap fun e => [e.sourceNodeId, e.targetNodeId]) ×ˢ
    List.range (k + 1)
  have hlen : possible.length < reachRounds s.edges.rows k := by
    rw [List.length_product, List.length_cons, List.length_flatMap, List.length_range]
    simp only [List.length_cons, List.length_nil, List.map_const', List.sum_replicate, smul_eq_mul,
      reachRounds]
    rw [Nat.mul_comm s.edges.rows.length]
    exact Nat.lt_succ_self _
  have hinit : ∀ r ∈ [(root, 0)], r ∈ possible := by
    intro r hr
    rw [List.mem_singleton] at hr
    subst hr
    simp [possible]
  have hpossible : ∀ r ∈ possible, ∀ r' ∈ reachStep s.edges.rows k r, r' ∈ possible := by
    intro r _ r' hstep
    obtain ⟨hlt, hhop, e, he, hends⟩ := mem_reachStep.1 hstep
    rw [List.mem_product, List.mem_cons, List.mem_flatMap, List.mem_range]
    refine ⟨.inr ⟨e, he, ?_⟩, by omega⟩
    rcases hends with ⟨-, hid⟩ | ⟨-, hid⟩ <;> simp [hid]
  obtain ⟨rows, hrows, -, hmem⟩ := query_spec hinit hpossible hlen
  refine ⟨(rows.map Prod.fst).dedup, ?_, List.nodup_dedup _, ?_⟩
  · rw [reachIds, hrows]
    rfl
  · intro id
    rw [List.mem_dedup, List.mem_map, ← exists_reached_iff]
    constructor
    · rintro ⟨r, hrow, rfl⟩
      exact ⟨r.2, (hmem _).1 hrow⟩
    · rintro ⟨h, hreached⟩
      exact ⟨(id, h), (hmem _).2 hreached, rfl⟩

theorem ncard_within {ids : List String} (hnodup : ids.Nodup)
    (hmem : ∀ id, id ∈ ids ↔ id ∈ s.within root k) : (s.within root k).ncard = ids.length := by
  have hset : s.within root k = (ids.toFinset : Set String) := by
    ext id
    rw [← hmem, Finset.mem_coe, List.mem_toFinset]
  rw [hset, Set.ncard_coe_finset, List.toFinset_card_of_nodup hnodup]

theorem root_mem_within : root ∈ s.within root k := by
  change s.graph.edist root root ≤ k
  rw [SimpleGraph.edist_self]
  exact bot_le

/-- The answer, or the error of a statement with too many parameters. -/
theorem neighborhood_eq (hroot : (s.nodes.lookup root).isSome = true) (d : ℕ) :
    ∃ nb, s.IsNeighborhood root (min d 6) nb ∧ s.neighborhood root d
      = if maxVariableNumber < 2 * (s.within root (min d 6)).ncard
        then .error (.sql "too many SQL variables") else .ok nb := by
  obtain ⟨n, hn⟩ := Option.isSome_iff_exists.1 hroot
  obtain ⟨ids, hids, hnodup, hmem⟩ := exists_reachIds s root (min d 6)
  have hne : ids ≠ [] := List.ne_nil_of_mem ((hmem root).2 root_mem_within)
  refine ⟨⟨root, s.nodes.rows.filter fun n => n.id ∈ ids,
    s.edges.rows.filter fun e => e.sourceNodeId ∈ ids ∧ e.targetNodeId ∈ ids⟩, ?_, ?_⟩
  · refine ⟨rfl, ?_, ?_, ?_, ?_⟩
    · exact (List.Nodup.of_map _ s.nodes.nodup).filter _
    · intro n
      rw [List.mem_filter, decide_eq_true_iff, hmem]
    · exact (List.Nodup.of_map _ s.edges.nodup).filter _
    · intro e
      rw [List.mem_filter, decide_eq_true_iff, hmem, hmem]
  · rw [ncard_within hnodup hmem]
    unfold neighborhood nodeProjectId
    simp only [hn, hids, if_neg hne, prepare]
    by_cases hlimit : maxVariableNumber < 2 * ids.length
    · rw [if_pos hlimit]
      by_cases hone : maxVariableNumber < ids.length
      · rw [if_pos hone]
        rfl
      · rw [if_neg hone, if_pos (by omega)]
        rfl
    · rw [if_neg hlimit, if_neg (by omega), if_neg (by omega)]
      rfl

/-- The recursion ends on every graph, and what is near a node is answered exactly if there are
parameters for it. -/
theorem neighborhood_iff (hroot : (s.nodes.lookup root).isSome = true) (d : ℕ) :
    (reachIds s.edges.rows root (min d 6)).isSome = true ∧
      ((∃ nb, s.neighborhood root d = .ok nb ∧ s.IsNeighborhood root (min d 6) nb) ↔
        2 * (s.within root (min d 6)).ncard ≤ 32766) := by
  obtain ⟨ids, hids, -, -⟩ := exists_reachIds s root (min d 6)
  obtain ⟨nb, hnb, heq⟩ := neighborhood_eq hroot d
  refine ⟨by rw [hids]; rfl, ?_⟩
  rw [heq]
  constructor
  · rintro ⟨nb', hok, -⟩
    by_contra hlimit
    rw [if_pos (by unfold maxVariableNumber; omega)] at hok
    injection hok
  · intro hlimit
    rw [if_neg (by unfold maxVariableNumber; omega)]
    exact ⟨nb, rfl, hnb⟩

/-! ## Many neighbors -/

def starId (n : ℕ) : String := String.ofList (List.replicate n 'n')

theorem starId_injective : Function.Injective starId := by
  intro m n h
  have hlist : List.replicate m 'n' = List.replicate n 'n' := by
    simpa [starId] using congrArg String.toList h
  simpa using congrArg List.length hlist

def starNode (n : ℕ) : GraphNode :=
  ⟨starId n, "p", .concept, none, none, "", "", .finite 0, .finite 0, 0, 0⟩

def starEdge (n : ℕ) : GraphEdge := ⟨starId n, starId 0, starId (n + 1), .relates, "", 0⟩

/-- A project of one node and so many next to it. -/
def starStore (n : ℕ) : Store :=
  { Store.empty with
    projects := ⟨[⟨"p", "star", "", .active, 0, 0⟩], by simp⟩
    nodes :=
      { rows := (List.range (n + 1)).map starNode
        nodup := by
          rw [List.map_map]
          exact List.nodup_range.map starId_injective }
    edges :=
      { rows := (List.range n).map starEdge
        nodup := by
          rw [List.map_map]
          exact List.nodup_range.map starId_injective } }

theorem lookup_starNode (n : ℕ) :
    ((starStore n).nodes.lookup (starId 0)).isSome = true := by
  rw [Option.isSome_iff_exists]
  refine ⟨starNode 0, KeyedTable.lookup_eq_some.2 ⟨?_, rfl⟩⟩
  exact List.mem_map_of_mem (List.mem_range.2 (Nat.succ_pos n))

/-- All of a star is within one hop of its middle. -/
theorem starId_mem_within {n m : ℕ} (hm : m ≤ n) (hk : 1 ≤ k) :
    starId m ∈ (starStore n).within (starId 0) k := by
  rcases m with _ | m
  · exact root_mem_within
  · have hedge : starEdge m ∈ (starStore n).edges.rows :=
      List.mem_map_of_mem (List.mem_range.2 hm)
    have hone := edist_le_one hedge (.inl ⟨rfl, rfl⟩)
    exact hone.trans (by exact_mod_cast hk)

theorem lt_ncard_starStore (n : ℕ) (hk : 1 ≤ k) :
    n < ((starStore n).within (starId 0) k).ncard := by
  obtain ⟨ids, -, hnodup, hmem⟩ := exists_reachIds (starStore n) (starId 0) k
  rw [ncard_within hnodup hmem]
  have hsub : (List.range (n + 1)).map starId ⊆ ids := by
    intro id hid
    obtain ⟨m, hm, rfl⟩ := List.mem_map.1 hid
    exact (hmem _).2 (starId_mem_within (Nat.lt_succ_iff.1 (List.mem_range.1 hm)) hk)
  have hlen := ((List.nodup_range.map starId_injective).subperm hsub).length_le
  rw [List.length_map, List.length_range] at hlen
  omega

theorem neighborhood_small_star :
    (reachIds (starStore 2).edges.rows (starId 0) 3).isSome = true ∧
      ((∃ nb, (starStore 2).neighborhood (starId 0) 3 = .ok nb ∧
          (starStore 2).IsNeighborhood (starId 0) 3 nb) ↔
        2 * ((starStore 2).within (starId 0) 3).ncard ≤ 32766) :=
  neighborhood_iff (lookup_starNode 2) 3

/-- The neighbors of a node with 16383 of them are refused. -/
theorem neighborhood_large_star :
    ((starStore 16383).nodes.lookup (starId 0)).isSome = true ∧
      (starStore 16383).neighborhood (starId 0) 1 = .error (.sql "too many SQL variables") := by
  refine ⟨lookup_starNode 16383, ?_⟩
  obtain ⟨nb, -, heq⟩ := neighborhood_eq (lookup_starNode 16383) 1
  have hmany := @lt_ncard_starStore (min 1 6) 16383 (by decide)
  rw [heq, if_pos]
  unfold maxVariableNumber
  omega

end Store

end BuilderPro
