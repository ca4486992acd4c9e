import Mathlib.Data.List.Nodup
import Mathlib.Data.List.Perm.Subperm
import Mathlib.Logic.Function.Basic
import Mathlib.Tactic.Common

/-!
# Parent links

A forest is given by its links to the parent.  It has no cycle (`Acyclic`) when no node is above
itself; cutting links and hanging a node under one that is not below it keep this so
(`Acyclic.of_le`, `Acyclic.hang`), and nodes that are added, with links that never lead back from
the old ones, make a cycle only among themselves (`acyclic_ite_iff`).
-/

namespace Forest

variable {κ : Type*}

/-- The node `n` links above. -/
def climb (up : κ → Option κ) : ℕ → κ → Option κ
  | 0, x => some x
  | n + 1, x => (up x).bind (climb up n)

def Acyclic (up : κ → Option κ) : Prop := ∀ x n, 0 < n → climb up n x ≠ some x

/-- Whether `y` is one of the `n` nodes from `x` on. -/
def reaches [DecidableEq κ] (up : κ → Option κ) : ℕ → κ → κ → Bool
  | 0, _, _ => false
  | n + 1, x, y =>
    x = y ||
      match up x with
      | some z => reaches up n z y
      | none => false

variable {up up' : κ → Option κ} {x y z : κ} {m n : ℕ}

@[simp] theorem climb_zero : climb up 0 x = some x := rfl

theorem climb_succ : climb up (n + 1) x = (up x).bind (climb up n) := rfl

theorem climb_one : climb up 1 x = up x := by
  rw [climb_succ]
  cases up x <;> rfl

theorem climb_add : climb up (m + n) x = (climb up m x).bind (climb up n) := by
  induction m generalizing x with
  | zero => simp
  | succ m ih =>
    rw [Nat.succ_add, climb_succ, climb_succ, Option.bind_assoc]
    exact congrArg _ (funext fun y => ih)

theorem climb_none_of_le (h : climb up m x = none) (hle : m ≤ n) : climb up n x = none := by
  obtain ⟨k, rfl⟩ := Nat.exists_eq_add_of_le hle
  rw [climb_add, h]
  rfl

/-- Links that only lose some reach no more. -/
theorem climb_of_le (hle : ∀ x y, up' x = some y → up x = some y)
    (h : climb up' n x = some y) : climb up n x = some y := by
  induction n generalizing x with
  | zero => exact h
  | succ n ih =>
    rw [climb_succ, Option.bind_eq_some_iff] at h ⊢
    obtain ⟨z, hz, h⟩ := h
    exact ⟨z, hle x z hz, ih h⟩

theorem Acyclic.of_le (h : Acyclic up) (hle : ∀ x y, up' x = some y → up x = some y) :
    Acyclic up' :=
  fun x n hn hc => h x n hn (climb_of_le hle hc)

/-- Links that lower a rank lower it at each step of a climb. -/
theorem climb_rank {r : κ → ℕ} (hr : ∀ x y, up x = some y → r y < r x)
    (h : climb up n x = some y) : r y + n ≤ r x := by
  induction n generalizing x with
  | zero =>
    obtain rfl := Option.some.inj h
    exact Nat.le_refl _
  | succ n ih =>
    rw [climb_succ, Option.bind_eq_some_iff] at h
    obtain ⟨z, hz, h⟩ := h
    have hlt := hr x z hz
    have hle := ih h
    omega

theorem Acyclic.of_rank {r : κ → ℕ} (hr : ∀ x y, up x = some y → r y < r x) : Acyclic up := by
  intro x n hn h
  have hle := climb_rank hr h
  omega

/-- Links that agree on what is above `x` climb alike from it. -/
theorem climb_congr (h : ∀ k < n, ∀ y, climb up k x = some y → up' y = up y) :
    climb up' n x = climb up n x := by
  induction n generalizing x with
  | zero => rfl
  | succ n ih =>
    rw [climb_succ, climb_succ, h 0 (Nat.succ_pos n) x rfl]
    rcases hup : up x with _ | z
    · rfl
    · refine ih fun k hk y hy => h (k + 1) (by omega) y ?_
      rw [climb_succ, hup]
      exact hy

section Reaches

variable [DecidableEq κ]

theorem reaches_iff : reaches up n x y = true ↔ ∃ k < n, climb up k x = some y := by
  induction n generalizing x with
  | zero => simp [reaches]
  | succ n ih =>
    simp only [reaches, Bool.or_eq_true, decide_eq_true_eq]
    constructor
    · rintro (rfl | h)
      · exact ⟨0, by omega, rfl⟩
      · split at h
        · rename_i z hz
          obtain ⟨k, hk, hy⟩ := ih.1 h
          exact ⟨k + 1, by omega, by rw [climb_succ, hz]; exact hy⟩
        · cases h
    · rintro ⟨_ | k, hk, hy⟩
      · exact .inl (Option.some.inj hy)
      · right
        rw [climb_succ, Option.bind_eq_some_iff] at hy
        obtain ⟨z, hz, hy⟩ := hy
        rw [hz]
        exact ih.2 ⟨k, by omega, hy⟩

end Reaches

/-- The `n` nodes from `x` on, if there are as many. -/
def chain (up : κ → Option κ) : ℕ → κ → List κ
  | 0, _ => []
  | n + 1, x =>
    x ::
      match up x with
      | some z => chain up n z
      | none => []

theorem mem_chain : y ∈ chain up n x ↔ ∃ k < n, climb up k x = some y := by
  induction n generalizing x with
  | zero => simp [chain]
  | succ n ih =>
    rw [chain, List.mem_cons]
    constructor
    · rintro (rfl | h)
      · exact ⟨0, by omega, rfl⟩
      · split at h
        · rename_i z hz
          obtain ⟨k, hk, hy⟩ := ih.1 h
          exact ⟨k + 1, by omega, by rw [climb_succ, hz]; exact hy⟩
        · simp at h
    · rintro ⟨_ | k, hk, hy⟩
      · exact .inl (Option.some.inj hy).symm
      · right
        rw [climb_succ, Option.bind_eq_some_iff] at hy
        obtain ⟨z, hz, hy⟩ := hy
        rw [hz]
        exact ih.2 ⟨k, by omega, hy⟩

theorem Acyclic.nodup_chain (h : Acyclic up) (n : ℕ) (x : κ) : (chain up n x).Nodup := by
  induction n generalizing x with
  | zero => exact List.nodup_nil
  | succ n ih =>
    rw [chain]
    rcases hup : up x with _ | z
    · simp
    · refine List.nodup_cons.2 ⟨fun hx => ?_, ih z⟩
      obtain ⟨k, -, hk⟩ := mem_chain.1 hx
      exact h x (k + 1) (by omega) (by rw [climb_succ, hup]; exact hk)

theorem length_chain (h : climb up n x ≠ none) : (chain up (n + 1) x).length = n + 1 := by
  induction n generalizing x with
  | zero =>
    rw [chain]
    cases up x <;> rfl
  | succ n ih =>
    rw [chain]
    rcases hup : up x with _ | z
    · exact absurd (by rw [climb_succ, hup]; rfl) h
    · have hz : climb up n z ≠ none := by
        rw [climb_succ, hup] at h
        exact h
      simp [ih hz]

/-- Hanging a node under one that is not below it makes no cycle. -/
theorem Acyclic.hang [DecidableEq κ] (h : Acyclic up) {i q : κ}
    (hq : ∀ k, climb up k q ≠ some i) : Acyclic (Function.update up i (some q)) := by
  -- from `q` up, the links are the old ones
  have hold : ∀ k, climb (Function.update up i (some q)) k q = climb up k q := by
    intro k
    refine climb_congr fun j _ y hy => Function.update_of_ne ?_ _ _
    rintro rfl
    exact hq j hy
  have hnot : ∀ k, climb (Function.update up i (some q)) k q ≠ some i := by
    intro k
    rw [hold]
    exact hq k
  intro x n hn hc
  by_cases hx : ∃ k < n, climb (Function.update up i (some q)) k x = some i
  · -- a cycle through `i` goes through `q`, and back to `i`
    obtain ⟨k, hk, hki⟩ := hx
    obtain ⟨m, rfl⟩ : ∃ m, n = k + (m + 1) := ⟨n - k - 1, by omega⟩
    have hup : Function.update up i (some q) i = some q := Function.update_self i _ _
    rw [climb_add, hki, Option.bind_some, climb_succ, hup, Option.bind_some] at hc
    apply hnot (m + k)
    rw [climb_add, hc]
    exact hki
  · refine h x n hn ?_
    rw [← hc]
    refine climb_congr fun k hk y hy => (Function.update_of_ne ?_ _ _).symm
    rintro rfl
    exact hx ⟨k, hk, hy⟩

/-- Adding nodes whose links may lead to the old ones, but not back, makes a cycle only among the
new nodes. -/
theorem acyclic_ite_iff {new : κ → Prop} [DecidablePred new]
    (hold : ∀ x y, up x = some y → ¬ new y) (h : Acyclic up) :
    Acyclic (fun x => if new x then up' x else up x) ↔
      Acyclic (fun x => if new x then up' x else none) := by
  constructor
  · refine fun ha => ha.of_le fun x y hxy => ?_
    by_cases hx : new x
    · simpa [hx] using hxy
    · simp [hx] at hxy
  intro ha x n hn hc
  by_cases hold' : ∃ k < n, ∃ w, climb (fun x => if new x then up' x else up x) k x = some w
      ∧ ¬ new w
  · -- from an old node of the cycle on, every node is old
    obtain ⟨k, -, w, hw, hnew⟩ := hold'
    have hcycle : climb (fun x => if new x then up' x else up x) n w = some w := by
      have := @climb_add _ (fun x => if new x then up' x else up x) x k n
      rw [hw, Option.bind_some, Nat.add_comm, climb_add, hc, Option.bind_some, hw] at this
      exact this.symm
    have hstay : ∀ k y, climb up k w = some y → ¬ new y := by
      intro k y hy
      rcases k with _ | k
      · rwa [← Option.some.inj hy]
      · rw [climb_add, Option.bind_eq_some_iff] at hy
        obtain ⟨z, -, hzy⟩ := hy
        exact hold z y (climb_one.symm.trans hzy)
    refine h w n hn ?_
    rw [← hcycle]
    exact (climb_congr fun k _ y hy => if_neg (hstay k y hy)).symm
  · refine ha x n hn ?_
    rw [← hc]
    refine climb_congr fun k hk y hy => ?_
    have hy' : new y := by
      by_contra hny
      exact hold' ⟨k, hk, y, hy, hny⟩
    simp [hy']

end Forest
