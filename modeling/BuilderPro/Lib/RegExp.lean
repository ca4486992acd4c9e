import Mathlib.Data.List.Basic
import Mathlib.Tactic.Common

/-!
# Regular expressions that backtrack

What is left of a text after each way a pattern matches its start, the preferred way first: of two
alternatives the first, and of a repetition the longest.  What a pattern may leave is what follows a
word it describes (`RegExp.mem_ends`).
-/

inductive RegExp (α : Type*)
  | one (p : α → Bool)
  | seq (r s : RegExp α)
  | alt (r s : RegExp α)
  | opt (r : RegExp α)
  | star (r : RegExp α)

namespace RegExp

variable {α : Type*}

/-- A repetition, of at most so many turns; a turn that takes nothing is none. -/
def iterate (f : List α → List (List α)) : ℕ → List α → List (List α)
  | 0, xs => [xs]
  | n + 1, xs => ((f xs).filter fun rest => rest.length < xs.length).flatMap (iterate f n) ++ [xs]

/-- What is left after each way to match the start of a text. -/
def ends : RegExp α → List α → List (List α)
  | one _, [] => []
  | one p, x :: xs => if p x then [xs] else []
  | seq r s, xs => (r.ends xs).flatMap s.ends
  | alt r s, xs => r.ends xs ++ s.ends xs
  | opt r, xs => ((r.ends xs).filter fun rest => rest.length < xs.length) ++ [xs]
  | star r, xs => iterate r.ends xs.length xs

def plus (r : RegExp α) : RegExp α := seq r (star r)

/-- The words made of words that are not empty. -/
inductive Star (P : List α → Prop) : List α → Prop
  | nil : Star P []
  | cons {v w : List α} (hv : P v) (hne : v ≠ []) (hw : Star P w) : Star P (v ++ w)

/-- The words a pattern describes. -/
def Matches : RegExp α → List α → Prop
  | one p, w => ∃ x, p x = true ∧ w = [x]
  | seq r s, w => ∃ u v, r.Matches u ∧ s.Matches v ∧ w = u ++ v
  | alt r s, w => r.Matches w ∨ s.Matches w
  | opt r, w => w = [] ∨ r.Matches w
  | star r, w => Star r.Matches w

/-- Whether a pattern describes the empty word. -/
def nullable : RegExp α → Bool
  | one _ => false
  | seq r s => r.nullable && s.nullable
  | alt r s => r.nullable || s.nullable
  | opt _ => true
  | star _ => true

variable {r : RegExp α} {f : List α → List (List α)} {P : List α → Prop} {xs rest w : List α} {n : ℕ}

theorem ne_nil_of_matches (hr : r.nullable = false) (h : r.Matches w) : w ≠ [] := by
  induction r generalizing w with
  | one p =>
    obtain ⟨x, -, rfl⟩ := h
    simp
  | seq r s ihr ihs =>
    obtain ⟨u, v, hu, hv, rfl⟩ := h
    rcases Bool.and_eq_false_iff.1 hr with hr | hs
    · exact List.append_ne_nil_of_left_ne_nil (ihr hr hu) v
    · exact List.append_ne_nil_of_right_ne_nil u (ihs hs hv)
  | alt r s ihr ihs =>
    obtain ⟨hr, hs⟩ := Bool.or_eq_false_iff.1 hr
    exact h.elim (ihr hr) (ihs hs)
  | opt r => cases hr
  | star r => cases hr

theorem exists_of_mem_iterate (hf : ∀ xs rest, rest ∈ f xs → ∃ w, P w ∧ xs = w ++ rest)
    (h : rest ∈ iterate f n xs) : ∃ w, Star P w ∧ xs = w ++ rest := by
  induction n generalizing xs with
  | zero =>
    obtain rfl : rest = xs := by simpa [iterate] using h
    exact ⟨[], .nil, rfl⟩
  | succ n ih =>
    rw [iterate, List.mem_append, List.mem_flatMap] at h
    rcases h with ⟨mid, hmid, h⟩ | h
    · obtain ⟨hmid, hlt⟩ := List.mem_filter.1 hmid
      obtain ⟨v, hv, rfl⟩ := hf xs mid hmid
      obtain ⟨w, hw, rfl⟩ := ih h
      have hne : v ≠ [] := by
        rintro rfl
        simp at hlt
      exact ⟨v ++ w, .cons hv hne hw, (List.append_assoc _ _ _).symm⟩
    · obtain rfl := List.mem_singleton.1 h
      exact ⟨[], .nil, rfl⟩

theorem mem_iterate_of_star (hf : ∀ w rest, P w → rest ∈ f (w ++ rest)) (hw : Star P w)
    (hn : (w ++ rest).length ≤ n) : rest ∈ iterate f n (w ++ rest) := by
  induction hw generalizing n with
  | nil => cases n <;> simp [iterate]
  | @cons v w hv hne hw ih =>
    have hpos := List.length_pos_of_ne_nil hne
    rw [List.append_assoc, List.length_append] at hn
    obtain ⟨m, rfl⟩ := Nat.exists_eq_add_of_le' (by omega : 1 ≤ n)
    rw [List.append_assoc, iterate, List.mem_append, List.mem_flatMap]
    refine .inl ⟨w ++ rest, List.mem_filter.2 ⟨hf v _ hv, ?_⟩, ih (by omega)⟩
    simpa using hpos

/-- What is left of a text follows a word of the pattern. -/
theorem mem_ends : rest ∈ r.ends xs ↔ ∃ w, r.Matches w ∧ xs = w ++ rest := by
  induction r generalizing xs rest with
  | one p =>
    cases xs with
    | nil => simp [ends, Matches]
    | cons x xs =>
      by_cases hp : p x = true
      · simp only [ends, hp, if_true, List.mem_singleton, Matches]
        constructor
        · rintro rfl
          exact ⟨[x], ⟨x, hp, rfl⟩, rfl⟩
        · rintro ⟨w, ⟨y, -, rfl⟩, h⟩
          simpa using (List.cons.inj h).2.symm
      · simp only [ends, hp, Matches]
        refine iff_of_false (by simp) ?_
        rintro ⟨w, ⟨y, hy, rfl⟩, h⟩
        rw [(List.cons.inj h).1] at hp
        exact hp hy
  | seq r s ihr ihs =>
    simp only [ends, List.mem_flatMap, ihr, ihs, Matches]
    constructor
    · rintro ⟨mid, ⟨u, hu, rfl⟩, v, hv, rfl⟩
      exact ⟨u ++ v, ⟨u, v, hu, hv, rfl⟩, (List.append_assoc _ _ _).symm⟩
    · rintro ⟨w, ⟨u, v, hu, hv, rfl⟩, rfl⟩
      exact ⟨v ++ rest, ⟨u, hu, List.append_assoc _ _ _⟩, v, hv, rfl⟩
  | alt r s ihr ihs =>
    simp only [ends, List.mem_append, ihr, ihs, Matches, or_and_right, exists_or]
  | opt r ih =>
    simp only [ends, List.mem_append, List.mem_filter, List.mem_singleton, ih, Matches]
    constructor
    · rintro (⟨⟨w, hw, rfl⟩, -⟩ | rfl)
      · exact ⟨w, .inr hw, rfl⟩
      · exact ⟨[], .inl rfl, rfl⟩
    · rintro ⟨w, hw, rfl⟩
      by_cases hnil : w = []
      · exact .inr (by simp [hnil])
      · refine .inl ⟨⟨w, hw.resolve_left hnil, rfl⟩, ?_⟩
        simpa using List.length_pos_of_ne_nil hnil
  | star r ih =>
    simp only [ends, Matches]
    constructor
    · exact exists_of_mem_iterate fun xs rest => ih.1
    · rintro ⟨w, hw, rfl⟩
      exact mem_iterate_of_star (fun w rest hw => ih.2 ⟨w, hw, rfl⟩) hw (Nat.le_refl _)

/-- The pattern and the one that follows it, with what each leaves. -/
def captures (r s : RegExp α) (xs : List α) : List (List α × List α) :=
  (r.ends xs).flatMap fun mid => (s.ends mid).map fun rest => (mid, rest)

/-- `exec` again and again: where each match begins, where its group ends and where it ends. -/
def execAll (r s : RegExp α) : ℕ → ℕ → List α → List (ℕ × ℕ × ℕ)
  | 0, _, _ => []
  | _ + 1, _, [] => []
  | n + 1, i, x :: xs =>
    match (captures r s (x :: xs)).head? with
    | none => execAll r s n (i + 1) xs
    | some (mid, rest) =>
      (i, i + ((x :: xs).length - mid.length), i + ((x :: xs).length - rest.length))
        :: execAll r s n (i + ((x :: xs).length - rest.length)) rest

/-- A match: what the group takes, and what follows it. -/
structure Found (r s : RegExp α) (text : List α) (m : ℕ × ℕ × ℕ) : Prop where
  lt : m.1 < m.2.1
  le : m.2.1 ≤ m.2.2
  len : m.2.2 ≤ text.length
  group : r.Matches ((text.take m.2.1).drop m.1)
  suffix : s.Matches ((text.take m.2.2).drop m.2.1)

variable {s : RegExp α} {mid text : List α} {i : ℕ} {m : ℕ × ℕ × ℕ}

theorem mem_captures : (mid, rest) ∈ captures r s xs ↔
    ∃ u v, r.Matches u ∧ s.Matches v ∧ xs = u ++ v ++ rest ∧ mid = v ++ rest := by
  simp only [captures, List.mem_flatMap, List.mem_map, Prod.mk.injEq, mem_ends]
  constructor
  · rintro ⟨_, ⟨u, hu, rfl⟩, _, ⟨v, hv, rfl⟩, rfl, rfl⟩
    exact ⟨u, v, hu, hv, (List.append_assoc _ _ _).symm, rfl⟩
  · rintro ⟨u, v, hu, hv, rfl, rfl⟩
    exact ⟨_, ⟨u, hu, List.append_assoc _ _ _⟩, _, ⟨v, hv, rfl⟩, rfl, rfl⟩

theorem captures_nil (hr : r.nullable = false) : captures r s [] = [] := by
  refine List.eq_nil_iff_forall_not_mem.2 ?_
  rintro ⟨mid, rest⟩ hmem
  obtain ⟨u, v, hu, -, heq, -⟩ := mem_captures.1 hmem
  simp only [List.nil_eq, List.append_eq_nil_iff] at heq
  exact ne_nil_of_matches hr hu heq.1.1

/-- The first match, from where it begins. -/
theorem found_captures (pre : List α) (hr : r.nullable = false) (h : (mid, rest) ∈ captures r s xs) :
    Found r s (pre ++ xs) (pre.length, pre.length + (xs.length - mid.length),
      pre.length + (xs.length - rest.length)) ∧ rest.length < xs.length
      ∧ ∃ w, xs = w ++ rest ∧ xs.length - rest.length = w.length := by
  obtain ⟨u, v, hu, hv, rfl, rfl⟩ := mem_captures.1 h
  have hpos := List.length_pos_of_ne_nil (ne_nil_of_matches hr hu)
  have hmid : (u ++ v ++ rest).length - (v ++ rest).length = u.length := by
    simp only [List.length_append]
    omega
  have hrest : (u ++ v ++ rest).length - rest.length = u.length + v.length := by
    simp only [List.length_append]
    omega
  rw [hmid, hrest]
  refine ⟨⟨Nat.lt_add_of_pos_right hpos, Nat.add_le_add_left (Nat.le_add_right _ _) _, ?_, ?_, ?_⟩,
    ?_, u ++ v, rfl, List.length_append.symm⟩
  · simp only [List.length_append]
    omega
  · have htake : (pre ++ (u ++ v ++ rest)).take (pre.length + u.length) = pre ++ u := by
      rw [List.append_assoc, ← List.append_assoc pre, ← List.length_append, List.take_left]
    rw [htake, List.drop_left]
    exact hu
  · have htake : (pre ++ (u ++ v ++ rest)).take (pre.length + (u.length + v.length))
        = pre ++ u ++ v := by
      rw [← List.append_assoc, ← List.append_assoc, ← Nat.add_assoc, ← List.length_append,
        ← List.length_append, List.take_left]
    rw [htake, ← List.length_append, List.drop_left]
    exact hv
  · simp only [List.length_append]
    omega

theorem found_of_mem_execAll (pre : List α) (hr : r.nullable = false)
    (hm : m ∈ execAll r s n pre.length xs) :
    pre.length ≤ m.1 ∧ Found r s (pre ++ xs) m := by
  induction n generalizing pre xs with
  | zero => simp [execAll] at hm
  | succ n ih =>
    cases xs with
    | nil => simp [execAll] at hm
    | cons x xs =>
      rw [execAll] at hm
      split at hm
      · obtain ⟨hle, hfound⟩ := ih (pre ++ [x]) (by simpa using hm)
        refine ⟨?_, by simpa using hfound⟩
        simp only [List.length_append, List.length_singleton] at hle
        omega
      · rename_i mid rest hhead
        obtain ⟨hfound, hlt, w, hw, hlen⟩ :=
          found_captures pre hr (List.mem_of_head? hhead)
        rcases List.mem_cons.1 hm with rfl | hm
        · exact ⟨Nat.le_refl _, hfound⟩
        · rw [hlen, ← List.length_append] at hm
          obtain ⟨hle, hrest⟩ := ih _ hm
          rw [hw, ← List.append_assoc]
          refine ⟨?_, hrest⟩
          rw [List.length_append] at hle
          omega

theorem pairwise_execAll (pre : List α) (hr : r.nullable = false) :
    (execAll r s n pre.length xs).Pairwise fun m m' => m.2.2 ≤ m'.1 := by
  induction n generalizing pre xs with
  | zero => exact .nil
  | succ n ih =>
    cases xs with
    | nil => exact .nil
    | cons x xs =>
      rw [execAll]
      split
      · have hrest : (execAll r s n (pre ++ [x]).length xs).Pairwise fun m m' => m.2.2 ≤ m'.1 := ih _
        simpa using hrest
      · rename_i mid rest hhead
        obtain ⟨-, -, w, hw, hlen⟩ := found_captures pre hr (List.mem_of_head? hhead)
        rw [hlen, ← List.length_append]
        exact List.pairwise_cons.2 ⟨fun m hm => (found_of_mem_execAll _ hr hm).1, ih _⟩

/-- No match is missed: where one could begin, one that is found begins or goes on. -/
theorem exists_mem_execAll (hr : r.nullable = false) (hn : xs.length ≤ n) {j : ℕ}
    (hj : captures r s (xs.drop j) ≠ []) :
    ∃ m ∈ execAll r s n i xs, m.1 ≤ i + j ∧ i + j < m.2.2 := by
  induction n generalizing i j xs with
  | zero =>
    obtain rfl := List.length_eq_zero_iff.1 (Nat.le_zero.1 hn)
    exact absurd (by rw [List.drop_nil, captures_nil hr]) hj
  | succ n ih =>
    cases xs with
    | nil => exact absurd (by rw [List.drop_nil, captures_nil hr]) hj
    | cons x xs =>
      rw [execAll]
      split
      · rename_i hnone
        cases j with
        | zero => exact absurd (List.head?_eq_none_iff.1 hnone) hj
        | succ j =>
          obtain ⟨m, hm, hle, hlt⟩ := @ih xs (i + 1) (by simpa using hn) j hj
          exact ⟨m, hm, by omega, by omega⟩
      · rename_i mid rest hhead
        obtain ⟨-, hlt, w, hw, hlen⟩ := found_captures [] hr (List.mem_of_head? hhead)
        rw [hlen]
        by_cases hin : j < w.length
        · exact ⟨_, List.mem_cons_self, by simp, by simpa using hin⟩
        · have hdrop : (x :: xs).drop j = rest.drop (j - w.length) := by
            rw [hw, List.drop_append, List.drop_eq_nil_of_le (by omega), List.nil_append]
          rw [hdrop] at hj
          have hlen : rest.length ≤ n := by
            simp only [List.length_cons] at hn hlt
            omega
          obtain ⟨m, hm, hle, hlt'⟩ := @ih rest (i + w.length) hlen _ hj
          exact ⟨m, List.mem_cons_of_mem _ hm, by omega, by omega⟩

end RegExp
