import Mathlib.Tactic.Common

/-!
# Attempts

Something is tried until an outcome is not one to try again after, or the retries are used up.  The
attempts made are the first outcomes of what would come (`mem_dropLast_attempts`): an attempt is
followed by another exactly if it is one of the first `left` and each up to it is one to try again
after.
-/

namespace Retry

variable {ο : Type*} (again : ο → Bool) (outcome : ℕ → ο)

/-- The attempts from the `n`-th on, with some retries left. -/
def attempts : (left n : ℕ) → List ο
  | 0, n => [outcome n]
  | left + 1, n => if again (outcome n) then outcome n :: attempts left (n + 1) else [outcome n]

variable {again outcome} {left n : ℕ} {o : ο}

theorem attempts_ne_nil : attempts again outcome left n ≠ [] := by
  unfold attempts
  split
  · simp
  · split_ifs <;> simp

/-- What was tried again after. -/
theorem mem_dropLast_attempts : o ∈ (attempts again outcome left n).dropLast ↔
    ∃ k < left, outcome (n + k) = o ∧ ∀ j ≤ k, again (outcome (n + j)) = true := by
  induction left generalizing n with
  | zero => simp [attempts]
  | succ left ih =>
    unfold attempts
    split_ifs with h
    · rw [List.dropLast_cons_of_ne_nil attempts_ne_nil, List.mem_cons, ih]
      constructor
      · rintro (rfl | ⟨k, hk, rfl, hj⟩)
        · exact ⟨0, by omega, rfl, fun j hj => by rw [Nat.le_zero.1 hj]; exact h⟩
        · refine ⟨k + 1, by omega, by rw [Nat.add_right_comm, Nat.add_assoc], fun j hjk => ?_⟩
          rcases j with _ | j
          · exact h
          · have := hj j (by omega)
            rwa [Nat.add_right_comm, Nat.add_assoc] at this
      · rintro ⟨k, hk, rfl, hj⟩
        rcases k with _ | k
        · exact .inl rfl
        · refine .inr ⟨k, by omega, by rw [Nat.add_right_comm, Nat.add_assoc], fun j hjk => ?_⟩
          have := hj (j + 1) (by omega)
          rwa [Nat.add_right_comm, Nat.add_assoc]
    · simp only [List.dropLast_singleton, List.not_mem_nil, false_iff, not_exists, not_and]
      exact fun k _ _ hj => h (hj 0 (by omega))

/-- Nothing is tried again after an outcome of a kind exactly if the first of that kind comes too
late for it, or is none to try again after. -/
theorem dropLast_attempts_none_iff (p : ο → Bool)
    (hp : ∀ o, p o = false → again o = true) :
    (∀ o ∈ (attempts again outcome left n).dropLast, p o = false) ↔
      ∀ k < left, (∀ j < k, p (outcome (n + j)) = false) → p (outcome (n + k)) = true →
        again (outcome (n + k)) = false := by
  constructor
  · intro h k hk hbefore hpk
    by_contra hagain
    have hmem : outcome (n + k) ∈ (attempts again outcome left n).dropLast := by
      refine mem_dropLast_attempts.2 ⟨k, hk, rfl, fun j hj => ?_⟩
      rcases Nat.lt_or_eq_of_le hj with hj | rfl
      · exact hp _ (hbefore j hj)
      · simpa using hagain
    rw [h _ hmem] at hpk
    cases hpk
  · intro h o ho
    obtain ⟨k, hk, rfl, hj⟩ := mem_dropLast_attempts.1 ho
    -- Of the attempts up to the `k`-th, the first of the kind would be one to try again after.
    have hall : ∀ m ≤ k, p (outcome (n + m)) = false := by
      intro m
      induction m using Nat.strongRecOn with
      | ind m ih =>
        intro hm
        by_contra hpm
        have hno := h m (by omega) (fun j hjm => ih j hjm (by omega)) (by simpa using hpm)
        rw [hj m hm] at hno
        cases hno
    exact hall k (Nat.le_refl k)

end Retry
