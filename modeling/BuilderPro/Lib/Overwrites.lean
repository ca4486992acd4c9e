import Mathlib.Tactic.Common

/-!
# Writes over one another

A write leaves something at some of the places, and the others as they are.  After a list of writes
there is at each place what the last of them to touch it has left (`apply_eq`).
-/

namespace Overwrites

variable {κ ν ω : Type*} (leaves : ω → κ → Option ν)

/-- What is there after the writes. -/
def apply (f : κ → ν) : List ω → κ → ν
  | [] => f
  | w :: ws => apply (fun k => (leaves w k).getD (f k)) ws

/-- What the last write to touch a place leaves there. -/
def last (k : κ) : List ω → Option ν
  | [] => none
  | w :: ws => (last k ws).or (leaves w k)

variable {leaves} {f : κ → ν} {ws : List ω} {k : κ} {v : ν}

theorem apply_cons {w : ω} :
    apply leaves f (w :: ws) = apply leaves (fun k => (leaves w k).getD (f k)) ws := rfl

theorem apply_eq : apply leaves f ws k = (last leaves k ws).getD (f k) := by
  induction ws generalizing f with
  | nil => rfl
  | cons w ws ih =>
    rw [apply_cons, ih, last]
    cases last leaves k ws <;> rfl

/-- A place is as it was exactly when the last write to touch it leaves what was there. -/
theorem apply_eq_self_iff : apply leaves f ws k = f k ↔ ∀ v, last leaves k ws = some v → v = f k := by
  rw [apply_eq]
  cases last leaves k ws <;> simp

theorem last_eq_none : last leaves k ws = none ↔ ∀ w ∈ ws, leaves w k = none := by
  induction ws with
  | nil => simp [last]
  | cons w ws ih =>
    rw [last, Option.or_eq_none_iff, ih, List.forall_mem_cons]
    exact and_comm

/-- A place that some write touches has what the last of them leaves. -/
theorem apply_eq_iff {w : ω} (hw : w ∈ ws) (hk : leaves w k ≠ none) :
    apply leaves f ws k = v ↔ last leaves k ws = some v := by
  rw [apply_eq]
  rcases h : last leaves k ws with _ | u
  · exact (hk (last_eq_none.1 h w hw)).elim
  · simp

end Overwrites
