import Mathlib.Algebra.BigOperators.Group.List.Basic
import Mathlib.Data.List.Perm.Basic
import Mathlib.Order.Lattice

/-!
# Tallies

A tally is a sorted table of sums: adding a value at a key makes the row or adds to it.  What is
collected from a list depends on the list's members only, not on their order, and a sum over some of
the rows is that sum over the list (`sumOn_collect`).
-/

/-- Rows in the order of their keys, no key twice. -/
structure Tally (κ μ : Type*) [LinearOrder κ] where
  rows : List (κ × μ)
  sorted : (rows.map Prod.fst).Pairwise (· < ·)

namespace Tally

variable {κ μ : Type*}

/-- The sum of the values whose keys meet `p`. -/
def sumOn [AddCommMonoid μ] (p : κ → Prop) [DecidablePred p] (l : List (κ × μ)) : μ :=
  ((l.filter fun x => p x.1).map Prod.snd).sum

section Sum

variable [AddCommMonoid μ] {p : κ → Prop} [DecidablePred p] {l l' : List (κ × μ)}

@[simp] theorem sumOn_nil : sumOn p ([] : List (κ × μ)) = 0 := rfl

theorem sumOn_cons (x : κ × μ) (l : List (κ × μ)) :
    sumOn p (x :: l) = (if p x.1 then x.2 else 0) + sumOn p l := by
  unfold sumOn
  by_cases h : p x.1 <;> simp [h]

theorem sumOn_append : sumOn p (l ++ l') = sumOn p l + sumOn p l' := by
  simp [sumOn]

theorem sumOn_perm (h : l.Perm l') : sumOn p l = sumOn p l' :=
  ((h.filter _).map _).sum_eq

/-- No row meets `p`. -/
theorem sumOn_eq_zero (h : ∀ x ∈ l, ¬ p x.1) : sumOn p l = 0 := by
  rw [sumOn, List.filter_eq_nil_iff.2 (by simpa using h)]
  rfl

end Sum

variable [LinearOrder κ]

/-! ## Adding -/

def addRow [Add μ] (k : κ) (m : μ) : List (κ × μ) → List (κ × μ)
  | [] => [(k, m)]
  | x :: rows =>
    if k < x.1 then (k, m) :: x :: rows
    else if k = x.1 then (k, x.2 + m) :: rows
    else x :: addRow k m rows

theorem mem_keys_addRow [Add μ] {k x : κ} {m : μ} {rows : List (κ × μ)} :
    x ∈ (addRow k m rows).map Prod.fst ↔ x = k ∨ x ∈ rows.map Prod.fst := by
  induction rows with
  | nil => simp [addRow]
  | cons y rows ih =>
    rw [addRow]
    split_ifs with hlt heq
    · simp
    · simp [heq]
    · rw [List.map_cons, List.mem_cons, ih, List.map_cons, List.mem_cons]
      tauto

theorem sorted_addRow [Add μ] {k : κ} {m : μ} {rows : List (κ × μ)}
    (h : (rows.map Prod.fst).Pairwise (· < ·)) :
    ((addRow k m rows).map Prod.fst).Pairwise (· < ·) := by
  induction rows with
  | nil => simp [addRow]
  | cons y rows ih =>
    obtain ⟨hy, hrows⟩ := List.pairwise_cons.1 h
    rw [addRow]
    split_ifs with hlt heq
    · refine List.pairwise_cons.2 ⟨fun z hz => ?_, h⟩
      rcases List.mem_cons.1 hz with rfl | hz
      · exact hlt
      · exact hlt.trans (hy z hz)
    · subst heq
      exact h
    · refine List.pairwise_cons.2 ⟨fun z hz => ?_, ih hrows⟩
      rcases mem_keys_addRow.1 hz with rfl | hz
      · exact lt_of_le_of_ne (not_lt.1 hlt) (Ne.symm heq)
      · exact hy z hz

def empty : Tally κ μ := ⟨[], List.Pairwise.nil⟩

def add [Add μ] (t : Tally κ μ) (k : κ) (m : μ) : Tally κ μ :=
  ⟨addRow k m t.rows, sorted_addRow t.sorted⟩

def addAll [Add μ] (t : Tally κ μ) (l : List (κ × μ)) : Tally κ μ :=
  l.foldl (fun t x => t.add x.1 x.2) t

def collect [Add μ] (l : List (κ × μ)) : Tally κ μ := empty.addAll l

theorem addAll_append [Add μ] (t : Tally κ μ) (l l' : List (κ × μ)) :
    t.addAll (l ++ l') = (t.addAll l).addAll l' := List.foldl_append

theorem mem_keys_addAll [Add μ] {t : Tally κ μ} {l : List (κ × μ)} {k : κ} :
    k ∈ (t.addAll l).rows.map Prod.fst ↔ k ∈ t.rows.map Prod.fst ∨ k ∈ l.map Prod.fst := by
  induction l generalizing t with
  | nil => simp [addAll]
  | cons x l ih =>
    rw [addAll, List.foldl_cons, ← addAll, ih, add, mem_keys_addRow, List.map_cons, List.mem_cons]
    tauto

theorem mem_keys_collect [Add μ] {l : List (κ × μ)} {k : κ} :
    k ∈ (collect l).rows.map Prod.fst ↔ k ∈ l.map Prod.fst := by
  rw [collect, mem_keys_addAll]
  simp [empty]

/-- Two tallies with the same rows, in whatever order they came, are the same. -/
theorem ext_rows {t t' : Tally κ μ} (h : ∀ x, x ∈ t.rows ↔ x ∈ t'.rows) : t = t' := by
  have hlt : ∀ t : Tally κ μ, t.rows.Pairwise fun x y => x.1 < y.1 := fun t =>
    List.pairwise_map.1 t.sorted
  have hnd : ∀ t : Tally κ μ, t.rows.Nodup := fun t => (hlt t).imp fun hxy h => by
    rw [h] at hxy
    exact lt_irrefl _ hxy
  have hrows : t.rows = t'.rows :=
    List.Perm.eq_of_pairwise (fun _ _ _ _ hxy hyx => absurd (hxy.trans hyx) (lt_irrefl _))
      (hlt t) (hlt t') ((List.perm_ext_iff_of_nodup (hnd t) (hnd t')).2 h)
  rcases t with ⟨rows, _⟩
  rcases t' with ⟨rows', _⟩
  simp only at hrows
  subst hrows
  rfl

/-! ## The sums -/

variable [AddCommMonoid μ] {p : κ → Prop} [DecidablePred p] {l l' : List (κ × μ)}

theorem sumOn_addRow (k : κ) (m : μ) (rows : List (κ × μ)) :
    sumOn p (addRow k m rows) = sumOn p rows + if p k then m else 0 := by
  induction rows with
  | nil => rw [addRow, sumOn_cons, sumOn_nil, add_comm]
  | cons y rows ih =>
    rw [addRow]
    by_cases hlt : k < y.1
    · rw [if_pos hlt, sumOn_cons, add_comm]
    rw [if_neg hlt]
    by_cases heq : k = y.1
    · subst heq
      rw [if_pos rfl, sumOn_cons, sumOn_cons]
      by_cases hp : p y.1
      · rw [if_pos hp, if_pos hp, if_pos hp, add_right_comm]
      · rw [if_neg hp, if_neg hp, if_neg hp, add_zero]
    · rw [if_neg heq, sumOn_cons, sumOn_cons, ih, add_assoc]

theorem sumOn_addAll (t : Tally κ μ) (l : List (κ × μ)) :
    sumOn p (t.addAll l).rows = sumOn p t.rows + sumOn p l := by
  induction l generalizing t with
  | nil => simp [addAll]
  | cons x l ih =>
    rw [addAll, List.foldl_cons, ← addAll, ih, add, sumOn_addRow, sumOn_cons, add_assoc]

/-- Rows are summed as the list they were collected from. -/
theorem sumOn_collect (l : List (κ × μ)) : sumOn p (collect l).rows = sumOn p l := by
  rw [collect, sumOn_addAll, empty, sumOn_nil, zero_add]

/-- A row holds the sum at its key. -/
theorem eq_sumOn_of_distinct {rows : List (κ × μ)} (hnd : rows.Pairwise fun x y => x.1 ≠ y.1)
    {k : κ} {m : μ} (h : (k, m) ∈ rows) : m = sumOn (· = k) rows := by
  induction rows with
  | nil => cases h
  | cons x rows ih =>
    obtain ⟨hx, hrows⟩ := List.pairwise_cons.1 hnd
    rw [sumOn_cons]
    rcases List.mem_cons.1 h with rfl | h
    · rw [if_pos rfl, sumOn_eq_zero fun y hy => (hx y hy).symm, add_zero]
    · rw [if_neg (hx (k, m) h), zero_add]
      exact ih hrows h

theorem eq_sumOn (t : Tally κ μ) {k : κ} {m : μ} (h : (k, m) ∈ t.rows) :
    m = sumOn (· = k) t.rows :=
  eq_sumOn_of_distinct ((List.pairwise_map.1 t.sorted).imp ne_of_lt) h

theorem mem_collect {k : κ} {m : μ} :
    (k, m) ∈ (collect l).rows ↔ k ∈ l.map Prod.fst ∧ m = sumOn (· = k) l := by
  rw [← mem_keys_collect, ← sumOn_collect]
  constructor
  · intro h
    exact ⟨List.mem_map_of_mem h, eq_sumOn _ h⟩
  · rintro ⟨hk, rfl⟩
    obtain ⟨⟨k, m⟩, h, rfl⟩ := List.mem_map.1 hk
    rwa [← eq_sumOn _ h]

theorem collect_congr (hk : ∀ k, k ∈ l.map Prod.fst ↔ k ∈ l'.map Prod.fst)
    (hs : ∀ k, sumOn (· = k) l = sumOn (· = k) l') : collect l = collect l' :=
  ext_rows fun ⟨k, m⟩ => by rw [mem_collect, mem_collect, hk, hs]

theorem collect_perm (h : l.Perm l') : collect l = collect l' :=
  collect_congr (fun _ => (h.map _).mem_iff) fun _ => sumOn_perm h

end Tally
