import Mathlib.Algebra.Order.Ring.Nat
import Mathlib.Data.List.Basic
import Mathlib.Tactic.Common

/-!
# Decimal digits

Numbers written with so many digits: as texts they are ordered as the numbers are.
-/

namespace Digits

/-- The last digits of a number. -/
def fixed : ℕ → ℕ → List Char
  | 0, _ => []
  | width + 1, n => fixed width (n / 10) ++ [Nat.digitChar (n % 10)]

@[simp] theorem length_fixed (width n : ℕ) : (fixed width n).length = width := by
  induction width generalizing n with
  | zero => rfl
  | succ width ih => simp [fixed, ih]

theorem replicate_append_toDigits {width n : ℕ} (hwidth : 0 < width) (h : n < 10 ^ width) :
    List.replicate (width - (Nat.toDigits 10 n).length) '0' ++ Nat.toDigits 10 n =
      fixed width n := by
  induction width generalizing n with
  | zero => omega
  | succ width ih =>
    rcases Nat.eq_zero_or_pos width with rfl | hpos
    · have hn : n < 10 := by omega
      simp [fixed, Nat.toDigits_of_lt_base hn, Nat.mod_eq_of_lt hn]
    · have hdiv : n / 10 < 10 ^ width := by
        rw [Nat.pow_succ] at h
        omega
      have hrest := ih hpos hdiv
      rw [fixed, ← hrest]
      by_cases hn : n < 10
      · have hzero : n / 10 = 0 := by omega
        obtain ⟨k, rfl⟩ : ∃ k, width = k + 1 := ⟨width - 1, by omega⟩
        simp [hzero, Nat.toDigits_of_lt_base hn, Nat.mod_eq_of_lt hn, List.replicate_succ']
      · rw [Nat.toDigits_of_base_le (by omega) (by omega), List.length_append,
          List.length_singleton, Nat.add_sub_add_right, List.append_assoc]

theorem digitChar_lt {a b : ℕ} (hab : a < b) (hb : b < 10) : a.digitChar < b.digitChar := by
  have hall : ∀ b < 10, ∀ a < b, a.digitChar < b.digitChar := by decide
  exact hall b hb a hab

/-- Of texts whose first parts have one length, the first parts decide. -/
theorem append_lt_append {α : Type*} [LT α] {l r x y : List α} (hlength : l.length = r.length)
    (h : l < r) : l ++ x < r ++ y := by
  induction l generalizing r with
  | nil =>
    obtain rfl : r = [] := List.length_eq_zero_iff.1 hlength.symm
    cases h
  | cons a l ih =>
    obtain ⟨b, r, rfl⟩ : ∃ b r', r = b :: r' := by
      rcases r with _ | ⟨b, r⟩
      · simp at hlength
      · exact ⟨b, r, rfl⟩
    rcases h with _ | hab | hlr
    · exact List.Lex.rel ‹_›
    · exact List.Lex.cons (ih (by simpa using hlength) ‹_›)

theorem fixed_lt {width m n : ℕ} (hmn : m < n) (hn : n < 10 ^ width) :
    fixed width m < fixed width n := by
  induction width generalizing m n with
  | zero => omega
  | succ width ih =>
    rw [Nat.pow_succ] at hn
    rcases Nat.lt_or_ge (m / 10) (n / 10) with hlt | hge
    · exact append_lt_append (by simp) (ih hlt (by omega))
    · have heq : m / 10 = n / 10 := by omega
      rw [fixed, fixed, heq]
      exact List.append_left_lt (List.Lex.rel (digitChar_lt (by omega) (by omega)))

end Digits
