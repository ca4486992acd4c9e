import Mathlib.Algebra.Order.Group.Nat
import Mathlib.Data.List.Nodup

/-!
# Lists whose elements have keys

Where the keys of a list are distinct, what is done at an index is done at the key of the element
there.
-/

namespace KeyedList

variable {α κ : Type*} [DecidableEq κ] {key : α → κ} {l : List α} {i : ℕ} {x : α}

omit [DecidableEq κ] in
/-- The element at an index splits a list with distinct keys into lists without its key. -/
theorem exists_append (hn : (l.map key).Nodup) (hi : l[i]? = some x) :
    ∃ l₁ l₂, l = l₁ ++ x :: l₂ ∧ l₁.length = i ∧ (∀ y ∈ l₁, key y ≠ key x)
      ∧ ∀ y ∈ l₂, key y ≠ key x := by
  obtain ⟨hlt, rfl⟩ := List.getElem?_eq_some_iff.1 hi
  have hl : l = l.take i ++ l[i] :: l.drop (i + 1) := by
    rw [← List.drop_eq_getElem_cons hlt, List.take_append_drop]
  rw [hl, List.map_append, List.map_cons, List.nodup_append, List.nodup_cons] at hn
  obtain ⟨-, ⟨hafter, -⟩, hbefore⟩ := hn
  refine ⟨_, _, hl, List.length_take_of_le hlt.le, fun y hy => ?_, fun y hy he => ?_⟩
  · exact hbefore _ (List.mem_map_of_mem hy) _ List.mem_cons_self
  · exact hafter (he ▸ List.mem_map_of_mem hy)

theorem set_eq_map (hn : (l.map key).Nodup) (hi : l[i]? = some x) (f : α → α) :
    l.set i (f x) = l.map fun y => if key y = key x then f y else y := by
  obtain ⟨l₁, l₂, rfl, rfl, h₁, h₂⟩ := exists_append hn hi
  have hkeep : ∀ l' : List α, (∀ y ∈ l', key y ≠ key x) →
      l'.map (fun y => if key y = key x then f y else y) = l' := fun l' h =>
    (List.map_congr_left fun y hy => if_neg (h y hy)).trans (List.map_id' l')
  rw [List.map_append, List.map_cons, hkeep l₁ h₁, hkeep l₂ h₂, if_pos rfl,
    List.set_append_right _ _ le_rfl]
  simp

theorem eraseIdx_eq_filter (hn : (l.map key).Nodup) (hi : l[i]? = some x) :
    l.eraseIdx i = l.filter fun y => key y ≠ key x := by
  obtain ⟨l₁, l₂, rfl, rfl, h₁, h₂⟩ := exists_append hn hi
  have hkeep : ∀ l' : List α, (∀ y ∈ l', key y ≠ key x) → l'.filter (key · ≠ key x) = l' :=
    fun l' h => List.filter_eq_self.2 fun y hy => decide_eq_true (h y hy)
  rw [List.filter_append, List.filter_cons_of_neg (by simp), hkeep l₁ h₁, hkeep l₂ h₂,
    List.eraseIdx_append_of_length_le le_rfl]
  simp

theorem find?_eq_some (hn : (l.map key).Nodup) (hi : l[i]? = some x) :
    l.find? (key · = key x) = some x := by
  obtain ⟨l₁, l₂, rfl, -, h₁, -⟩ := exists_append hn hi
  have hnone : l₁.find? (key · = key x) = none := by simpa using h₁
  rw [List.find?_append, hnone, Option.none_or, List.find?_cons_of_pos (by simp)]

end KeyedList
