import Mathlib.Data.List.Nodup
import Mathlib.Tactic.Common

/-!
# Tables keyed by a column

A table has at most one row for a key, which is a column of the row itself.  Everything said of a
table is said of what `lookup` finds in it.
-/

/-- A table of rows with distinct keys. -/
structure KeyedTable {κ β : Type*} (key : β → κ) where
  rows : List β
  nodup : (rows.map key).Nodup

namespace KeyedTable

variable {κ β : Type*} {key : β → κ}

def empty : KeyedTable key := ⟨[], List.nodup_nil⟩

/-- Deletes the rows that do not meet a condition. -/
def keep (t : KeyedTable key) (p : β → Bool) : KeyedTable key :=
  ⟨t.rows.filter p, t.nodup.sublist (List.filter_sublist.map key)⟩

theorem filter_keep_eq_iff {t : KeyedTable key} (r q : β → Bool) :
    (t.keep r).rows.filter q = t.rows.filter q ↔ ∀ x ∈ t.rows, q x = true → r x = true := by
  rw [keep, List.filter_comm, List.filter_eq_self]
  simp only [List.mem_filter, and_imp]

/-- Changes every row, and no key. -/
def mapRows (t : KeyedTable key) (f : β → β) (hf : ∀ x, key (f x) = key x) : KeyedTable key where
  rows := t.rows.map f
  nodup := by
    have hmap : (t.rows.map f).map key = t.rows.map key := by
      rw [List.map_map]
      exact List.map_congr_left fun x _ => hf x
    rw [hmap]
    exact t.nodup

variable [DecidableEq κ]

def lookup (t : KeyedTable key) (k : κ) : Option β := t.rows.find? fun x => key x = k

def erase (t : KeyedTable key) (k : κ) : KeyedTable key := t.keep fun x => key x ≠ k

/-- Puts a row in the place of the one with its key. -/
def upsert (t : KeyedTable key) (x : β) : KeyedTable key where
  rows := x :: (t.erase (key x)).rows
  nodup := by
    rw [List.map_cons, List.nodup_cons]
    refine ⟨fun h => ?_, (t.erase (key x)).nodup⟩
    obtain ⟨y, hy, hk⟩ := List.mem_map.1 h
    simp [erase, keep, hk] at hy

/-- Adds a row at the end, unless its key is taken. -/
def insert (t : KeyedTable key) (x : β) : Option (KeyedTable key) :=
  if h : ∃ y ∈ t.rows, key y = key x then none
  else some
    { rows := t.rows ++ [x]
      nodup := by
        rw [List.map_append, List.map_singleton, ← List.concat_eq_append]
        refine List.Nodup.concat (fun hx => h ?_) t.nodup
        simpa using hx }

/-- Puts a row where the one with its key stands. -/
def replace (t : KeyedTable key) (x : β) : KeyedTable key where
  rows := t.rows.map fun y => if key y = key x then x else y
  nodup := by
    rw [List.map_map, List.map_congr_left (g := key)]
    · exact t.nodup
    · intro y _
      simp only [Function.comp]
      split_ifs with h
      · exact h.symm
      · rfl

/-- Changes the row of a key, if there is one. -/
def modify (t : KeyedTable key) (k : κ) (f : β → β) : KeyedTable key :=
  match t.lookup k with
  | some x => t.upsert (f x)
  | none => t

variable {t : KeyedTable key} {k k' : κ} {x y : β}

theorem lookup_eq_some : t.lookup k = some x ↔ x ∈ t.rows ∧ key x = k := by
  constructor
  · intro h
    exact ⟨List.mem_of_find?_eq_some h, by simpa using List.find?_some h⟩
  · rintro ⟨hx, rfl⟩
    obtain ⟨y, hy⟩ := Option.isSome_iff_exists.1
      (List.find?_isSome (p := fun y => decide (key y = key x)) |>.2 ⟨x, hx, by simp⟩)
    have hk : key y = key x := by simpa using List.find?_some hy
    rw [lookup, hy, List.inj_on_of_nodup_map t.nodup (List.mem_of_find?_eq_some hy) hx hk]

theorem key_eq (h : t.lookup k = some x) : key x = k := (lookup_eq_some.1 h).2

theorem mem_rows : x ∈ t.rows ↔ t.lookup (key x) = some x := by
  simp [lookup_eq_some]

theorem exists_row : (∃ x ∈ t.rows, key x = k) ↔ (t.lookup k).isSome := by
  simp only [Option.isSome_iff_exists, lookup_eq_some]

@[simp] theorem lookup_empty : (empty : KeyedTable key).lookup k = none := rfl

@[simp] theorem lookup_keep (p : β → Bool) : (t.keep p).lookup k = (t.lookup k).filter p := by
  ext x
  simp only [lookup_eq_some, keep, List.mem_filter, Option.filter_eq_some_iff]
  tauto

theorem lookup_mapRows {f : β → β} (hf : ∀ x, key (f x) = key x) :
    (t.mapRows f hf).lookup k = (t.lookup k).map f := by
  rw [lookup, mapRows, List.find?_map]
  simp only [Function.comp_def, hf]
  rfl

theorem lookup_erase : (t.erase k').lookup k = if k = k' then none else t.lookup k := by
  ext x
  simp only [erase, lookup_keep, Option.filter_eq_some_iff, lookup_eq_some]
  split_ifs with h
  · simp only [iff_false]
    rintro ⟨⟨-, rfl⟩, hk⟩
    simp [h] at hk
  · rw [lookup_eq_some]
    refine ⟨fun hx => hx.1, fun hx => ⟨hx, ?_⟩⟩
    simpa [hx.2] using h

theorem lookup_erase_ne (h : k ≠ k') : (t.erase k').lookup k = t.lookup k := by
  simp [lookup_erase, h]

theorem lookup_upsert : (t.upsert x).lookup k = if k = key x then some x else t.lookup k := by
  rw [lookup, upsert, List.find?_cons]
  by_cases h : k = key x
  · simp [h]
  · rw [decide_eq_false (Ne.symm h), if_neg h]
    exact lookup_erase_ne h

theorem forall_upsert {P : β → Prop} (h : ∀ y ∈ t.rows, P y) (hx : P x) :
    ∀ y ∈ (t.upsert x).rows, P y := by
  intro y hy
  rw [mem_rows, lookup_upsert] at hy
  split_ifs at hy
  · rw [← Option.some.inj hy]
    exact hx
  · exact h y (mem_rows.2 hy)

/-- The rows of one table put in another. -/
theorem lookup_foldl_upsert {u : KeyedTable key} :
    (u.rows.foldl upsert t).lookup k = (u.lookup k).or (t.lookup k) := by
  obtain ⟨rows, hnodup⟩ := u
  show (rows.foldl upsert t).lookup k = (rows.find? fun x => key x = k).or (t.lookup k)
  induction rows generalizing t with
  | nil => rfl
  | cons x rows ih =>
    rw [List.map_cons, List.nodup_cons] at hnodup
    rw [List.foldl_cons, ih hnodup.2, lookup_upsert, List.find?_cons]
    by_cases h : key x = k
    · have hnone : rows.find? (fun y => key y = k) = none := by
        rw [List.find?_eq_none]
        intro y hy hk
        exact hnodup.1 (List.mem_map.2 ⟨y, hy, (of_decide_eq_true hk).trans h.symm⟩)
      rw [hnone, if_pos h.symm, decide_eq_true h]
      rfl
    · rw [if_neg (Ne.symm h), decide_eq_false h]

theorem insert_eq_some {u : KeyedTable key} :
    t.insert x = some u ↔ t.lookup (key x) = none ∧ u.rows = t.rows ++ [x] := by
  have hnone : (∃ y ∈ t.rows, key y = key x) ↔ t.lookup (key x) ≠ none := by
    rw [exists_row, Option.isSome_iff_ne_none]
  unfold insert
  split_ifs with h
  · simp [hnone.1 h]
  · have := not_not.1 (mt hnone.2 h)
    rcases u with ⟨rows, hu⟩
    simp only [Option.some.injEq, mk.injEq, this, true_and]
    exact eq_comm

theorem exists_insert (h : t.lookup (key x) = none) : ∃ u, t.insert x = some u := by
  rcases hu : t.insert x with _ | u
  · unfold insert at hu
    split_ifs at hu with hx
    rw [exists_row, h] at hx
    cases hx
  · exact ⟨u, rfl⟩

theorem lookup_insert {u : KeyedTable key} (h : t.insert x = some u) :
    u.lookup k = if k = key x then some x else t.lookup k := by
  obtain ⟨hnone, hrows⟩ := insert_eq_some.1 h
  rw [lookup, hrows, List.find?_append]
  by_cases hk : k = key x
  · subst hk
    have : t.rows.find? (fun y => decide (key y = key x)) = none := hnone
    simp [this]
  · have hx : decide (key x = k) = false := decide_eq_false (Ne.symm hk)
    rw [List.find?_singleton, hx, if_neg hk]
    simp [lookup]

/-- Adding a row that may be left out takes its key, if it was not taken before. -/
theorem isSome_lookup_insert_getD : (((t.insert x).getD t).lookup k).isSome ↔
    (t.lookup k).isSome ∨ k = key x := by
  rcases hu : t.insert x with _ | u
  · have htaken : (t.lookup (key x)).isSome := by
      by_contra hfree
      rw [Option.not_isSome_iff_eq_none] at hfree
      obtain ⟨u, hu'⟩ := exists_insert hfree
      simp [hu] at hu'
    rw [Option.getD_none]
    exact ⟨.inl, fun h => h.elim id fun hk => hk ▸ htaken⟩
  · rw [Option.getD_some, lookup_insert hu]
    split_ifs with hk
    · simp [hk]
    · simp [hk]

theorem mem_replace : y ∈ (t.replace x).rows ↔
    (y = x ∧ ∃ z ∈ t.rows, key z = key x) ∨ (y ∈ t.rows ∧ key y ≠ key x) := by
  simp only [replace, List.mem_map]
  constructor
  · rintro ⟨z, hz, rfl⟩
    by_cases h : key z = key x
    · exact .inl ⟨by simp [h], z, hz, h⟩
    · exact .inr ⟨by simpa [h] using hz, by simp [h]⟩
  · rintro (⟨rfl, z, hz, h⟩ | ⟨hy, h⟩)
    · exact ⟨z, hz, by simp [h]⟩
    · exact ⟨y, hy, by simp [h]⟩

theorem forall_replace {P : β → Prop} (h : ∀ y ∈ t.rows, P y) (hx : P x) :
    ∀ y ∈ (t.replace x).rows, P y := by
  intro y hy
  rcases mem_replace.1 hy with ⟨rfl, -⟩ | ⟨hy, -⟩
  · exact hx
  · exact h y hy

section Only

variable {R : β → β → Prop} {u : KeyedTable key}

theorem mem_insert (h : t.insert x = some u) : y ∈ u.rows ↔ y ∈ t.rows ∨ y = x := by
  rw [(insert_eq_some.1 h).2, List.mem_append, List.mem_singleton]

/-- Where no two rows are related, neither are they with a row that is related to none. -/
theorem only_insert (h : t.insert x = some u)
    (hold : ∀ y ∈ t.rows, ∀ z ∈ t.rows, R y z → y = z) (hnew : ∀ y ∈ t.rows, ¬R x y ∧ ¬R y x) :
    ∀ y ∈ u.rows, ∀ z ∈ u.rows, R y z → y = z := by
  intro y hy z hz hR
  rcases (mem_insert h).1 hy with hy | rfl <;> rcases (mem_insert h).1 hz with hz | rfl
  · exact hold y hy z hz hR
  · exact absurd hR (hnew y hy).2
  · exact absurd hR (hnew z hz).1
  · rfl

/-- The same with a row in the place of one that was related to what it is. -/
theorem only_replace {x₀ : β} (h : t.lookup (key x) = some x₀)
    (hold : ∀ y ∈ t.rows, ∀ z ∈ t.rows, R y z → y = z)
    (hsame : ∀ y ∈ t.rows, key y ≠ key x → (R x y → R x₀ y) ∧ (R y x → R y x₀)) :
    ∀ y ∈ (t.replace x).rows, ∀ z ∈ (t.replace x).rows, R y z → y = z := by
  obtain ⟨hmem, hkey⟩ := lookup_eq_some.1 h
  intro y hy z hz hR
  rcases mem_replace.1 hy with ⟨rfl, -⟩ | ⟨hyt, hyk⟩ <;>
    rcases mem_replace.1 hz with ⟨rfl, -⟩ | ⟨hzt, hzk⟩
  · rfl
  · have heq := hold x₀ hmem z hzt ((hsame z hzt hzk).1 hR)
    exact absurd (heq ▸ hkey) hzk
  · have heq := hold y hyt x₀ hmem ((hsame y hyt hyk).2 hR)
    exact absurd (heq ▸ hkey) hyk
  · exact hold y hyt z hzt hR

omit [DecidableEq κ] in
theorem only_keep {q : β → Bool} (hold : ∀ y ∈ t.rows, ∀ z ∈ t.rows, R y z → y = z) :
    ∀ y ∈ (t.keep q).rows, ∀ z ∈ (t.keep q).rows, R y z → y = z :=
  fun y hy z hz => hold y (List.mem_filter.1 hy).1 z (List.mem_filter.1 hz).1

end Only

/-- A column without duplicates has none after a row is put in the place of one with its value. -/
theorem inj_replace {γ : Type*} {f : β → γ}
    (hinj : ∀ z ∈ t.rows, ∀ w ∈ t.rows, f z = f w → z = w) (h : t.lookup (key x) = some y)
    (hf : f x = f y) :
    ∀ z ∈ (t.replace x).rows, ∀ w ∈ (t.replace x).rows, f z = f w → z = w := by
  refine only_replace (R := fun z w => f z = f w) h hinj fun z _ _ => ?_
  rw [hf]
  exact ⟨id, id⟩

theorem lookup_replace (h : t.lookup (key x) = some y) :
    (t.replace x).lookup k = if k = key x then some x else t.lookup k := by
  obtain ⟨hy, hkey⟩ := lookup_eq_some.1 h
  ext z
  rw [lookup_eq_some, mem_replace]
  split_ifs with hk
  · subst hk
    simp only [Option.some.injEq]
    constructor
    · rintro ⟨⟨rfl, -⟩ | ⟨-, hne⟩, hz⟩
      · rfl
      · exact absurd hz hne
    · rintro rfl
      exact ⟨.inl ⟨rfl, y, hy, hkey⟩, rfl⟩
  · rw [lookup_eq_some]
    constructor
    · rintro ⟨⟨rfl, -⟩ | ⟨hz, -⟩, rfl⟩
      · exact absurd rfl hk
      · exact ⟨hz, rfl⟩
    · rintro ⟨hz, rfl⟩
      exact ⟨.inr ⟨hz, hk⟩, rfl⟩

theorem isSome_insert {u : KeyedTable key} (h : t.insert x = some u) (hk : (t.lookup k).isSome) :
    (u.lookup k).isSome := by
  rw [lookup_insert h]
  split_ifs
  · rfl
  · exact hk

@[simp] theorem isSome_replace : ((t.replace x).lookup k).isSome = (t.lookup k).isSome := by
  rw [Bool.eq_iff_iff, ← exists_row, ← exists_row]
  simp only [mem_replace]
  constructor
  · rintro ⟨y, ⟨rfl, z, hz, hk⟩ | ⟨hy, -⟩, rfl⟩
    · exact ⟨z, hz, hk⟩
    · exact ⟨y, hy, rfl⟩
  · rintro ⟨y, hy, rfl⟩
    by_cases h : key y = key x
    · exact ⟨x, .inl ⟨rfl, y, hy, h⟩, h.symm⟩
    · exact ⟨y, .inr ⟨hy, h⟩, rfl⟩

theorem filter_insert {u : KeyedTable key} (h : t.insert x = some u) (q : β → Bool) :
    u.rows.filter q = t.rows.filter q ++ if q x then [x] else [] := by
  rw [(insert_eq_some.1 h).2, List.filter_append, List.filter_singleton, cond_eq_ite]

theorem filter_replace (h : t.lookup (key x) = some y) {q : β → Bool} (hx : q x = false)
    (hy : q y = false) : (t.replace x).rows.filter q = t.rows.filter q := by
  have hq : ∀ z ∈ t.rows, q (if key z = key x then x else z) = q z := by
    intro z hz
    split_ifs with hk
    · obtain rfl : z = y := Option.some.inj ((mem_rows.1 hz).symm.trans (hk ▸ h))
      rw [hx, hy]
    · rfl
  rw [replace, List.filter_map, List.filter_congr (p := q ∘ _) (q := q) hq]
  refine (List.map_congr_left fun z hz => ?_).trans (List.map_id _)
  obtain ⟨hz, hqz⟩ := List.mem_filter.1 hz
  split_ifs with hk
  · obtain rfl : z = y := Option.some.inj ((mem_rows.1 hz).symm.trans (hk ▸ h))
    rw [hy] at hqz
    cases hqz
  · rfl

/-- A change that keeps the key changes the row of that key, and no other. -/
theorem lookup_modify {f : β → β} (hf : ∀ x, key (f x) = key x) :
    (t.modify k' f).lookup k = if k = k' then (t.lookup k).map f else t.lookup k := by
  unfold modify
  split
  · rename_i x hx
    rw [lookup_upsert, hf, key_eq hx]
    split_ifs with h
    · simp [h, hx]
    · rfl
  · rename_i hx
    split_ifs with h
    · simp [h, hx]
    · rfl

end KeyedTable
