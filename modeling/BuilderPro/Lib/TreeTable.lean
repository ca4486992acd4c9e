import BuilderPro.Lib.Forest
import BuilderPro.Lib.KeyedTable
import Mathlib.Data.Finset.Card

/-!
# Tables whose rows are trees

A table with a parent column, and a column that says which group a row is of.  It is well formed
when every parent is a row of the group and no row is above itself (`Trees`); the writes of a table
keep this so under the guards one expects, and of rows that are added in one go it can be told which
of them would break it (`trees_append_iff`).
-/

namespace KeyedTable

open Forest

variable {κ β γ : Type*} {key : β → κ} [DecidableEq κ]

/-- The link to the parent. -/
def link (t : KeyedTable key) (parent : β → Option κ) (k : κ) : Option κ := (t.lookup k).bind parent

/-- Every parent is a row of the same group, and no row is above itself. -/
structure Trees (t : KeyedTable key) (parent : β → Option κ) (group : β → γ) : Prop where
  parent_mem : ∀ x ∈ t.rows, ∀ q, parent x = some q → ∃ y, t.lookup q = some y ∧ group y = group x
  acyclic : Acyclic (t.link parent)

variable {t u : KeyedTable key} {parent : β → Option κ} {group : β → γ} {x y : β} {k q : κ}

theorem link_eq_some : t.link parent k = some q ↔ ∃ x, t.lookup k = some x ∧ parent x = some q :=
  Option.bind_eq_some_iff

theorem trees_empty : (empty : KeyedTable key).Trees parent group where
  parent_mem _ hx := absurd hx List.not_mem_nil
  acyclic x n hn := by
    obtain ⟨m, rfl⟩ : ∃ m, n = m + 1 := ⟨n - 1, by omega⟩
    rw [climb_succ]
    exact nofun

/-- A replaced row stays in its group. -/
theorem exists_lookup_replace {z : β} (hy : t.lookup (key x) = some y) (hg : group x = group y)
    (hz : t.lookup q = some z) :
    ∃ z', (t.replace x).lookup q = some z' ∧ group z' = group z := by
  rw [lookup_replace hy]
  split_ifs with hq
  · subst hq
    obtain rfl := Option.some.inj (hy.symm.trans hz)
    exact ⟨x, rfl, hg⟩
  · exact ⟨z, hz, rfl⟩

namespace Trees

/-- What is above a row is a row. -/
theorem climb_mem (h : t.Trees parent group) {n : ℕ} (hk : (t.lookup k).isSome)
    (hn : climb (t.link parent) n k = some q) : (t.lookup q).isSome := by
  induction n generalizing k with
  | zero =>
    obtain rfl := Option.some.inj hn
    exact hk
  | succ n ih =>
    rw [climb_succ, Option.bind_eq_some_iff] at hn
    obtain ⟨z, hz, hn⟩ := hn
    obtain ⟨x, hx, hp⟩ := link_eq_some.1 hz
    obtain ⟨y, hy, -⟩ := h.parent_mem x (lookup_eq_some.1 hx).1 z hp
    exact ih (by simp [hy]) hn

/-- The rows from one up are distinct. -/
theorem climb_lt (h : t.Trees parent group) {n : ℕ} (hk : (t.lookup k).isSome)
    (hn : climb (t.link parent) n k ≠ none) : n < t.rows.length := by
  have hsub : chain (t.link parent) (n + 1) k ⊆ t.rows.map key := by
    intro q hq
    obtain ⟨m, -, hm⟩ := mem_chain.1 hq
    obtain ⟨x, hx, rfl⟩ := exists_row.2 (h.climb_mem hk hm)
    exact List.mem_map_of_mem hx
  have := ((h.acyclic.nodup_chain (n + 1) k).subperm hsub).length_le
  rw [length_chain hn, List.length_map] at this
  omega

theorem insert (h : t.Trees parent group) (hu : t.insert x = some u)
    (hp : ∀ q, parent x = some q → ∃ y, t.lookup q = some y ∧ group y = group x) :
    u.Trees parent group := by
  have hfree := (insert_eq_some.1 hu).1
  have hlookup : ∀ k, (t.lookup k).isSome → u.lookup k = t.lookup k := by
    intro k hk
    rw [lookup_insert hu, if_neg]
    rintro rfl
    simp [hfree] at hk
  refine ⟨fun z hz q hq => ?_, ?_⟩
  · obtain ⟨y, hy, hg⟩ : ∃ y, t.lookup q = some y ∧ group y = group z := by
      rw [(insert_eq_some.1 hu).2, List.mem_append, List.mem_singleton] at hz
      rcases hz with hz | rfl
      · exact h.parent_mem z hz q hq
      · exact hp q hq
    exact ⟨y, (hlookup q (by simp [hy])).trans hy, hg⟩
  · have hlink : u.link parent = Function.update (t.link parent) (key x) (parent x) := by
      funext k
      rw [link, lookup_insert hu]
      by_cases hk : k = key x
      · subst hk
        simp
      · simp [hk, link]
    rw [hlink]
    rcases hx : parent x with _ | q
    · refine h.acyclic.of_le fun a b hab => ?_
      by_cases ha : a = key x
      · simp [ha] at hab
      · rwa [Function.update_of_ne ha] at hab
    · -- nothing leads to the new row
      refine h.acyclic.hang fun n hn => ?_
      obtain ⟨y, hy, -⟩ := hp q hx
      have := h.climb_mem (by simp [hy]) hn
      simp [hfree] at this

/-- A row replaced by one of the same place. -/
theorem replace (h : t.Trees parent group) (hy : t.lookup (key x) = some y)
    (hp : parent x = parent y) (hg : group x = group y) : (t.replace x).Trees parent group := by
  refine ⟨fun z hz q hq => ?_, ?_⟩
  · rcases mem_replace.1 hz with ⟨rfl, -⟩ | ⟨hz, -⟩
    · obtain ⟨w, hw, hgw⟩ := h.parent_mem y (lookup_eq_some.1 hy).1 q (hp ▸ hq)
      obtain ⟨w', hw', hgw'⟩ := exists_lookup_replace hy hg hw
      exact ⟨w', hw', hgw'.trans (hgw.trans hg.symm)⟩
    · obtain ⟨w, hw, hgw⟩ := h.parent_mem z hz q hq
      obtain ⟨w', hw', hgw'⟩ := exists_lookup_replace hy hg hw
      exact ⟨w', hw', hgw'.trans hgw⟩
  · have hlink : (t.replace x).link parent = t.link parent := by
      funext k
      rw [link, lookup_replace hy, link]
      split_ifs with hk
      · simp [hk, hy, hp]
      · rfl
    rw [hlink]
    exact h.acyclic

/-- A row moved under one that is not below it. -/
theorem move (h : t.Trees parent group) (hy : t.lookup (key x) = some y) (hg : group x = group y)
    (hx : parent x = some q) (hq : ∃ z, t.lookup q = some z ∧ group z = group x)
    (hbelow : ∀ n, climb (t.link parent) n q ≠ some (key x)) :
    (t.replace x).Trees parent group := by
  refine ⟨fun z hz p hp => ?_, ?_⟩
  · obtain ⟨w, hw, hgw⟩ : ∃ w, t.lookup p = some w ∧ group w = group z := by
      rcases mem_replace.1 hz with ⟨rfl, -⟩ | ⟨hz, -⟩
      · obtain rfl := Option.some.inj (hx.symm.trans hp)
        exact hq
      · exact h.parent_mem z hz p hp
    obtain ⟨w', hw', hgw'⟩ := exists_lookup_replace hy hg hw
    exact ⟨w', hw', hgw'.trans hgw⟩
  · have hlink : (t.replace x).link parent = Function.update (t.link parent) (key x) (some q) := by
      funext k
      rw [link, lookup_replace hy]
      by_cases hk : k = key x
      · subst hk
        simp [hx]
      · simp [hk, link]
    rw [hlink]
    exact h.acyclic.hang hbelow

/-- A row deleted with all below it. -/
theorem prune (h : t.Trees parent group) (k : κ) :
    (t.keep fun x => !reaches (t.link parent) (t.rows.length + 1) (key x) k).Trees parent group := by
  refine ⟨fun x hx q hq => ?_, h.acyclic.of_le fun a b hab => ?_⟩
  · obtain ⟨hx, hkept⟩ := List.mem_filter.1 hx
    obtain ⟨y, hy, hg⟩ := h.parent_mem x hx q hq
    refine ⟨y, ?_, hg⟩
    rw [lookup_keep, hy, Option.filter_some, if_pos]
    -- below the parent is below the row
    rw [Bool.not_eq_true', Bool.eq_false_iff, ne_eq, reaches_iff] at hkept ⊢
    rintro ⟨n, -, hn⟩
    have hclimb : climb (t.link parent) (n + 1) (key x) = some k := by
      rw [climb_succ, link, mem_rows.1 hx, Option.bind_some, hq, Option.bind_some, ← key_eq hy]
      exact hn
    have := h.climb_lt (by rw [mem_rows.1 hx]; rfl) (by rw [hclimb]; exact nofun)
    exact hkept ⟨n + 1, by omega, hclimb⟩
  · obtain ⟨x, hx, hp⟩ := link_eq_some.1 hab
    rw [lookup_keep, Option.filter_eq_some_iff] at hx
    exact link_eq_some.2 ⟨x, hx.1, hp⟩

end Trees

/-! ### Tables whose parents are rows -/

section Closed

variable (hall : ∀ x ∈ t.rows, ∀ q, parent x = some q → (t.lookup q).isSome)
include hall

theorem climb_isSome {n : ℕ} (hk : (t.lookup k).isSome)
    (hn : climb (t.link parent) n k = some q) : (t.lookup q).isSome := by
  induction n generalizing k with
  | zero =>
    obtain rfl := Option.some.inj hn
    exact hk
  | succ n ih =>
    rw [climb_succ, Option.bind_eq_some_iff] at hn
    obtain ⟨z, hz, hn⟩ := hn
    obtain ⟨x, hx, hp⟩ := link_eq_some.1 hz
    exact ih (hall x (lookup_eq_some.1 hx).1 z hp) hn

/-- What is above a row is not further up than the rows are many, cycles or not. -/
theorem exists_climb_lt {n : ℕ} (hk : (t.lookup k).isSome)
    (hn : climb (t.link parent) n k = some q) :
    ∃ m < t.rows.length, climb (t.link parent) m k = some q := by
  induction n using Nat.strongRecOn with
  | ind n ih =>
  by_cases hlt : n < t.rows.length
  · exact ⟨n, hlt, hn⟩
  -- of the rows on the way one comes twice, and what is between can be left out
  have hsome : ∀ i ≤ n, ∃ r, climb (t.link parent) i k = some r := by
    intro i hi
    have hsplit : climb (t.link parent) (i + (n - i)) k = some q := by rwa [Nat.add_sub_cancel' hi]
    rw [climb_add, Option.bind_eq_some_iff] at hsplit
    exact ⟨hsplit.choose, hsplit.choose_spec.1⟩
  have hmaps : ∀ i ∈ Finset.range (n + 1),
      (climb (t.link parent) i k).getD k ∈ (t.rows.map key).toFinset := by
    intro i hi
    obtain ⟨r, hr⟩ := hsome i (Nat.lt_succ_iff.1 (Finset.mem_range.1 hi))
    obtain ⟨x, hx, rfl⟩ := exists_row.2 (climb_isSome hall hk hr)
    rw [hr, Option.getD_some, List.mem_toFinset]
    exact List.mem_map_of_mem hx
  have hcard : (t.rows.map key).toFinset.card < (Finset.range (n + 1)).card := by
    have hle := List.toFinset_card_le (t.rows.map key)
    rw [List.length_map] at hle
    rw [Finset.card_range]
    omega
  obtain ⟨i, hi, j, hj, hne, heq⟩ := Finset.exists_ne_map_eq_of_card_lt_of_maps_to hcard hmaps
  obtain ⟨i, j, hij, hjn, heq⟩ : ∃ i j, i < j ∧ j ≤ n ∧
      climb (t.link parent) i k = climb (t.link parent) j k := by
    have hi' := Nat.lt_succ_iff.1 (Finset.mem_range.1 hi)
    have hj' := Nat.lt_succ_iff.1 (Finset.mem_range.1 hj)
    obtain ⟨r, hr⟩ := hsome i hi'
    obtain ⟨r', hr'⟩ := hsome j hj'
    have hrr : r = r' := by simpa [hr, hr'] using heq
    subst hrr
    rcases Nat.lt_or_gt_of_ne hne with hlt | hgt
    · exact ⟨i, j, hlt, hj', hr.trans hr'.symm⟩
    · exact ⟨j, i, hgt, hi', hr'.trans hr.symm⟩
  refine ih (i + (n - j)) (by omega) ?_
  rw [climb_add, heq, ← climb_add, Nat.add_sub_cancel' hjn]
  exact hn

/-- The rows that are not below one have their parents among them. -/
theorem parent_mem_prune {x : β} (k : κ)
    (hx : x ∈ (t.keep fun x => !reaches (t.link parent) (t.rows.length + 1) (key x) k).rows)
    (hq : parent x = some q) :
    ((t.keep fun x => !reaches (t.link parent) (t.rows.length + 1) (key x) k).lookup q).isSome := by
  obtain ⟨hx, hkept⟩ := List.mem_filter.1 hx
  obtain ⟨y, hy⟩ := Option.isSome_iff_exists.1 (hall x hx q hq)
  rw [lookup_keep, hy, Option.filter_some, if_pos]
  · rfl
  · rw [Bool.not_eq_true', Bool.eq_false_iff, ne_eq, reaches_iff] at hkept ⊢
    rintro ⟨n, -, hn⟩
    obtain ⟨m, hm, hclimb⟩ := exists_climb_lt hall (hall x hx q hq) (key_eq hy ▸ hn)
    refine hkept ⟨m + 1, by omega, ?_⟩
    rw [climb_succ, link, mem_rows.1 hx, Option.bind_some, hq, Option.bind_some]
    exact hclimb

end Closed

/-- The links among the rows of a list. -/
def linkOf (key : β → κ) (parent : β → Option κ) (xs : List β) (k : κ) : Option κ :=
  (xs.find? fun x => key x = k).bind parent

/-- Rows added in one go keep the trees well formed exactly when each has its parent among all rows,
in its group, and no cycle is among the new ones. -/
theorem trees_append_iff {xs : List β} (h : t.Trees parent group) (hu : u.rows = t.rows ++ xs) :
    u.Trees parent group ↔
      (∀ x ∈ xs, ∀ q, parent x = some q → ∃ y ∈ t.rows ++ xs, key y = q ∧ group y = group x)
        ∧ Acyclic (linkOf key parent xs) := by
  have hlookup : ∀ q y, u.lookup q = some y ↔ y ∈ t.rows ++ xs ∧ key y = q := by
    intro q y
    rw [lookup_eq_some, hu]
  have hnew : ∀ k, (∃ x ∈ xs, key x = k) → t.lookup k = none := by
    rintro k ⟨x, hx, rfl⟩
    rw [lookup, List.find?_eq_none]
    intro y hy
    have hnodup := u.nodup
    rw [hu, List.map_append, List.nodup_append] at hnodup
    simpa using hnodup.2.2 (key y) (List.mem_map_of_mem hy) (key x) (List.mem_map_of_mem hx)
  have hlink : u.link parent = fun k =>
      if ∃ x ∈ xs, key x = k then linkOf key parent xs k else t.link parent k := by
    funext k
    rw [link, lookup, hu, List.find?_append]
    split_ifs with hk
    · have := hnew k hk
      rw [lookup] at this
      rw [this]
      rfl
    · have : xs.find? (fun x => decide (key x = k)) = none := by
        simpa using hk
      rw [this, Option.or_none]
      rfl
  have hnone : (fun k => if ∃ x ∈ xs, key x = k then linkOf key parent xs k else none)
      = linkOf key parent xs := by
    funext k
    split_ifs with hk
    · rfl
    · have : xs.find? (fun x => decide (key x = k)) = none := by
        simpa using hk
      rw [linkOf, this]
      rfl
  have hold : ∀ a b, t.link parent a = some b → ¬ ∃ x ∈ xs, key x = b := by
    intro a b hab hb
    obtain ⟨x, hx, hp⟩ := link_eq_some.1 hab
    obtain ⟨y, hy, -⟩ := h.parent_mem x (lookup_eq_some.1 hx).1 b hp
    rw [hnew b hb] at hy
    cases hy
  have hac : Acyclic (u.link parent) ↔ Acyclic (linkOf key parent xs) := by
    rw [hlink, acyclic_ite_iff hold h.acyclic, hnone]
  constructor
  · rintro ⟨hmem, hacyclic⟩
    refine ⟨fun x hx q hq => ?_, hac.1 hacyclic⟩
    obtain ⟨y, hy, hg⟩ := hmem x (by rw [hu]; exact List.mem_append_right _ hx) q hq
    obtain ⟨hy, hk⟩ := (hlookup q y).1 hy
    exact ⟨y, hy, hk, hg⟩
  · rintro ⟨hmem, hacyclic⟩
    refine ⟨fun x hx q hq => ?_, hac.2 hacyclic⟩
    rw [hu, List.mem_append] at hx
    rcases hx with hx | hx
    · obtain ⟨y, hy, hg⟩ := h.parent_mem x hx q hq
      obtain ⟨hy, hk⟩ := lookup_eq_some.1 hy
      exact ⟨y, (hlookup q y).2 ⟨List.mem_append_left _ hy, hk⟩, hg⟩
    · obtain ⟨y, hy, hk, hg⟩ := hmem x hx q hq
      exact ⟨y, (hlookup q y).2 ⟨hy, hk⟩, hg⟩

end KeyedTable
