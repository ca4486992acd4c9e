import Mathlib.Tactic.Common

/-!
# Lists as numbered slots

A list that grows at its end and whose entries are rewritten in place: what is found under a number
afterwards.
-/

namespace Slots

variable {α : Type*} {l : List α} {a b : α} {i j : ℕ}

theorem getElem?_set (h : l[i]? = some a) (b : α) (j : ℕ) :
    (l.set i b)[j]? = if j = i then some b else l[j]? := by
  by_cases hj : j = i
  · simp [hj, (List.getElem?_eq_some_iff.1 h).1]
  · rw [if_neg hj, List.getElem?_set_ne (Ne.symm hj)]

theorem getElem?_modify (h : l[i]? = some a) (f : α → α) (j : ℕ) :
    (l.modify i f)[j]? = if j = i then some (f a) else l[j]? := by
  rw [List.getElem?_modify]
  by_cases hj : j = i
  · simp [hj, h]
  · simp [hj, Ne.symm hj]

theorem getElem?_concat (l : List α) (b : α) (j : ℕ) :
    (l ++ [b])[j]? = if j = l.length then some b else l[j]? := by
  rcases Nat.lt_trichotomy j l.length with hlt | rfl | hgt
  · rw [List.getElem?_append_left hlt, if_neg (Nat.ne_of_lt hlt)]
  · simp
  · rw [if_neg (Nat.ne_of_gt hgt), List.getElem?_eq_none (Nat.le_of_lt hgt),
      List.getElem?_eq_none (by rw [List.length_append, List.length_singleton]; exact hgt)]

theorem mem_getElem?_concat : a ∈ (l ++ [b])[j]? ↔ a ∈ l[j]? ∨ (j = l.length ∧ a = b) := by
  rw [getElem?_concat]
  split_ifs with hj
  · rw [List.getElem?_eq_none (Nat.le_of_eq hj.symm)]
    simp [hj, eq_comm]
  · simp [hj]

/-- A slot is added. -/
theorem forall_concat {P Q : ℕ → α → Prop} (hl : ∀ (j : ℕ), ∀ b ∈ l[j]?, P j b)
    (hb : Q l.length b) (h : ∀ j c, c ∈ l[j]? → P j c → Q j c) :
    ∀ (j : ℕ), ∀ c ∈ (l ++ [b])[j]?, Q j c := by
  intro j c hc
  rcases mem_getElem?_concat.1 hc with hc | ⟨rfl, rfl⟩
  · exact h j c hc (hl j c hc)
  · exact hb

/-- What is taken out of a slot takes nothing else away. -/
theorem mem_eraseIdx_of_ne (hi : l[i]? = some a) (hb : b ∈ l) (hne : b ≠ a) :
    b ∈ l.eraseIdx i := by
  obtain ⟨j, hj⟩ := List.getElem?_of_mem hb
  refine List.mem_eraseIdx_iff_getElem?.2 ⟨j, ?_, hj⟩
  rintro rfl
  rw [hi] at hj
  exact hne (Option.some.inj hj).symm

end Slots
