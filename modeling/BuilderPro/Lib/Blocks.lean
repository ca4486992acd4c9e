import Mathlib.Data.List.Basic
import Mathlib.Data.List.Induction
import Mathlib.Data.List.Nodup
import Mathlib.Logic.Function.Basic
import Mathlib.Tactic.Common

/-!
# Sequences that go block by block

Several owners each put their items into one sequence, in order from the first.  The sequence goes
block by block when an item that is not its owner's first comes right after the one before it
(`Blocks`).  Such a sequence is what the owners' blocks give one after another, in some order of the
owners (`Blocks.exists_order`).
-/

variable {ι β : Type*} {l pre post : List (ι × ℕ)} {i : ι} {k : ℕ}

/-- No item comes twice, and each comes right after its owner's item before it, if there is one. -/
structure Blocks (l : List (ι × ℕ)) : Prop where
  nodup : l.Nodup
  after : ∀ pre i k post, l = pre ++ (i, k + 1) :: post → pre.getLast? = some (i, k)

namespace Blocks

theorem nil : Blocks ([] : List (ι × ℕ)) where
  nodup := List.Pairwise.nil
  after pre i k post h := by simp at h

/-- What has been taken of it so far goes block by block. -/
theorem of_append {l' : List (ι × ℕ)} (h : Blocks (l ++ l')) : Blocks l where
  nodup := (List.nodup_append.1 h.nodup).1
  after pre i k post hl := h.after pre i k (post ++ l') (by rw [hl]; simp)

/-- An owner's next item may follow its last. -/
theorem concat (h : Blocks l) (hnot : (i, k) ∉ l)
    (hlast : ∀ j, k = j + 1 → l.getLast? = some (i, j)) : Blocks (l ++ [(i, k)]) where
  nodup := by
    refine List.nodup_append.2 ⟨h.nodup, by simp, fun p hp q hq => ?_⟩
    obtain rfl := List.mem_singleton.1 hq
    rintro rfl
    exact hnot hp
  after pre j n post hl := by
    rcases List.eq_nil_or_concat' post with rfl | ⟨post, q, rfl⟩
    · obtain ⟨rfl, hp⟩ := List.append_inj' hl rfl
      obtain ⟨rfl, rfl⟩ : i = j ∧ k = n + 1 := by simpa using hp
      exact hlast n rfl
    · rw [← List.cons_append, ← List.append_assoc] at hl
      obtain ⟨rfl, -⟩ := List.append_inj' hl rfl
      exact h.after pre j n post rfl

/-- An owner's last item may be taken out. -/
theorem remove (h : Blocks (pre ++ (i, k) :: post)) (hnot : (i, k + 1) ∉ post) :
    Blocks (pre ++ post) where
  nodup := by
    refine h.nodup.sublist ?_
    exact List.Sublist.append_left (List.sublist_cons_self _ _) pre
  after pre' j n post' hl := by
    rcases List.append_eq_append_iff.1 hl with ⟨a, rfl, rfl⟩ | ⟨c, rfl, hc⟩
    · have hlast := h.after (pre ++ (i, k) :: a) j n post' (by simp)
      rcases List.eq_nil_or_concat' a with rfl | ⟨a, q, rfl⟩
      · obtain ⟨rfl, rfl⟩ : i = j ∧ k = n := by simpa using hlast
        simp at hnot
      · have hq : pre ++ (i, k) :: (a ++ [q]) = (pre ++ (i, k) :: a) ++ [q] := by simp
        rw [← hlast, hq, ← List.append_assoc, List.getLast?_concat, List.getLast?_concat]
    · rcases c with _ | ⟨q, c⟩
      · have hlast := h.after (pre' ++ [(i, k)]) j n post' (by simp [hc])
        obtain ⟨rfl, rfl⟩ : i = j ∧ k = n := by simpa using hlast
        rw [List.nil_append] at hc
        exact absurd (by rw [← hc]; exact List.mem_cons_self) hnot
      · obtain ⟨rfl, rfl⟩ : (j, n + 1) = q ∧ post' = c ++ post := by simpa using hc
        exact h.after pre' j n (c ++ (i, k) :: post) (by simp)

/-- What is last when an owner's last item is taken out. -/
theorem getLast?_remove (h : Blocks (pre ++ (i, k) :: post)) :
    (pre ++ post).getLast? = (pre ++ (i, k) :: post).getLast?
      ∨ ((pre ++ (i, k) :: post).getLast? = some (i, k)
        ∧ ∀ j, k = j + 1 → (pre ++ post).getLast? = some (i, j)) := by
  rcases List.eq_nil_or_concat' post with rfl | ⟨post, q, rfl⟩
  · refine .inr ⟨by simp, fun j hj => ?_⟩
    subst hj
    rw [List.append_nil]
    exact h.after pre i j [] rfl
  · have hq : pre ++ (i, k) :: (post ++ [q]) = (pre ++ (i, k) :: post) ++ [q] := by simp
    rw [hq, ← List.append_assoc, List.getLast?_concat, List.getLast?_concat]
    exact .inl rfl

/-- A sequence that goes block by block is the blocks of its owners, in the order in which they
begin. -/
theorem exists_order [DecidableEq ι] (h : Blocks l) : ∃ (order : List ι) (n : ι → ℕ),
    order.Nodup ∧ (∀ i, i ∈ order ↔ 0 < n i) ∧ (∀ i k, (i, k) ∈ l ↔ k < n i)
      ∧ (∀ i k, l.getLast? = some (i, k) → order.getLast? = some i ∧ n i = k + 1)
      ∧ ∀ f : ι → ℕ → List β, l.flatMap (fun p => f p.1 p.2)
        = order.flatMap fun i => (List.range (n i)).flatMap (f i) := by
  induction l using List.reverseRecOn with
  | nil => exact ⟨[], fun _ => 0, by simp⟩
  | append_singleton l p ih =>
    obtain ⟨i, k⟩ := p
    obtain ⟨order, n, hnodup, horder, hmem, hlast, hflat⟩ := ih h.of_append
    have hnew : (i, k) ∉ l := by
      intro hk
      exact (List.nodup_append.1 h.nodup).2.2 _ hk _ (by simp) rfl
    have hk : n i = k := by
      rcases k with _ | j
      · have := (hmem i 0).not.1 hnew
        omega
      · exact (hlast i j (h.after l i j [] rfl)).2
    -- the owners whose blocks are over
    obtain ⟨o, hnodup', ho, hblock⟩ : ∃ o : List ι, (o ++ [i]).Nodup
        ∧ (∀ j, j ∈ o ↔ j ≠ i ∧ 0 < n j)
        ∧ ∀ f : ι → ℕ → List β, order.flatMap (fun j => (List.range (n j)).flatMap (f j))
          = o.flatMap (fun j => (List.range (n j)).flatMap (f j))
            ++ (List.range k).flatMap (f i) := by
      rcases k with _ | j
      · have hi : i ∉ order := by simp [horder, hk]
        refine ⟨order, ?_, fun j => ?_, by simp⟩
        · rw [← List.concat_eq_append]
          exact List.Nodup.concat hi hnodup
        · rw [horder]
          refine ⟨fun hj => ⟨?_, hj⟩, fun hj => hj.2⟩
          rintro rfl
          omega
      · obtain ⟨o, rfl⟩ := List.getLast?_eq_some_iff.1 (hlast i j (h.after l i j [] rfl)).1
        have hi : i ∉ o := fun hi => (List.nodup_append.1 hnodup).2.2 i hi i (by simp) rfl
        refine ⟨o, hnodup, fun m => ?_, fun f => ?_⟩
        · rw [← horder, List.mem_append, List.mem_singleton]
          refine ⟨fun hm => ⟨?_, .inl hm⟩, fun hm => hm.2.resolve_right hm.1⟩
          rintro rfl
          exact hi hm
        · rw [List.flatMap_append]
          simp [hk]
    have hi : i ∉ o := fun hi => (List.nodup_append.1 hnodup').2.2 i hi i (by simp) rfl
    refine ⟨o ++ [i], Function.update n i (k + 1), hnodup', fun j => ?_, fun j m => ?_,
      fun j m hj => ?_, fun f => ?_⟩
    · by_cases hj : j = i
      · simp [hj]
      · simp [hj, ho]
    · by_cases hj : j = i
      · subst hj
        simp only [List.mem_append, hmem, hk, List.mem_singleton, Prod.mk.injEq, true_and,
          Function.update_self]
        omega
      · simp [hj, hmem]
    · obtain ⟨rfl, rfl⟩ : i = j ∧ k = m := by simpa using hj
      simp
    · have hsame : o.flatMap (fun j => (List.range (Function.update n i (k + 1) j)).flatMap (f j))
          = o.flatMap fun j => (List.range (n j)).flatMap (f j) := by
        refine List.flatMap_congr fun j hj => ?_
        rw [Function.update_of_ne]
        rintro rfl
        exact hi hj
      rw [List.flatMap_append, List.flatMap_append, hflat, hblock, hsame]
      simp [List.range_succ, List.flatMap_append]

end Blocks
