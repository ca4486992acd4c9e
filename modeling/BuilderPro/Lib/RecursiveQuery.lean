import Mathlib.Data.List.Perm.Subperm
import Mathlib.Data.List.Nodup
import Mathlib.Logic.Relation
import Mathlib.Tactic.Common

/-!
# Recursive queries

`WITH RECURSIVE … UNION …` takes one row after another from a queue and puts into it those that
follow from the row, but for rows that were ever there.  Where the rows that can be reached are
among finitely many it ends, and answers exactly those (`query_spec`).
-/

namespace RecursiveQuery

variable {α : Type} [DecidableEq α]

/-- The queue, and every row that was ever in it. -/
structure Work (α : Type) where
  queue : List α
  seen : List α

namespace Work

def add (w : Work α) (x : α) : Work α :=
  if x ∈ w.seen then w else ⟨w.queue ++ [x], w.seen ++ [x]⟩

def addAll (w : Work α) (xs : List α) : Work α := xs.foldl add w

variable {w : Work α} {x y : α} {xs : List α}

theorem mem_seen_add : y ∈ (w.add x).seen ↔ y ∈ w.seen ∨ y = x := by
  unfold add
  split_ifs with h
  · constructor
    · exact .inl
    · rintro (hy | rfl)
      · exact hy
      · exact h
  · simp

theorem mem_queue_add : y ∈ (w.add x).queue ↔ y ∈ w.queue ∨ y = x ∧ y ∉ w.seen := by
  unfold add
  split_ifs with h
  · constructor
    · exact .inl
    · rintro (hy | ⟨rfl, hy⟩)
      · exact hy
      · exact absurd h hy
  · rw [List.mem_append, List.mem_singleton]
    constructor
    · rintro (hy | rfl)
      · exact .inl hy
      · exact .inr ⟨rfl, h⟩
    · rintro (hy | ⟨rfl, -⟩)
      · exact .inl hy
      · exact .inr rfl

theorem mem_seen_addAll : y ∈ (w.addAll xs).seen ↔ y ∈ w.seen ∨ y ∈ xs := by
  induction xs generalizing w with
  | nil => simp [addAll]
  | cons x xs ih =>
    change y ∈ ((w.add x).addAll xs).seen ↔ _
    rw [ih, mem_seen_add, List.mem_cons, or_assoc]

theorem mem_queue_addAll :
    y ∈ (w.addAll xs).queue ↔ y ∈ w.queue ∨ y ∈ xs ∧ y ∉ w.seen := by
  induction xs generalizing w with
  | nil => simp [addAll]
  | cons x xs ih =>
    change y ∈ ((w.add x).addAll xs).queue ↔ _
    rw [ih, mem_queue_add, mem_seen_add, List.mem_cons]
    by_cases hy : y = x
    · subst hy
      simp
    · simp [hy]

theorem nodup_addAll (h : w.seen.Nodup) : (w.addAll xs).seen.Nodup := by
  induction xs generalizing w with
  | nil => exact h
  | cons x xs ih =>
    refine ih ?_
    unfold add
    split_ifs with hx
    · exact h
    · have hnodup := h.concat hx
      rwa [List.concat_eq_append] at hnodup

/-- What is new is in the queue once. -/
theorem length_addAll : (w.addAll xs).seen.length + w.queue.length
    = w.seen.length + (w.addAll xs).queue.length := by
  induction xs generalizing w with
  | nil => rfl
  | cons x xs ih =>
    have h : (w.add x).seen.length + w.queue.length
        = w.seen.length + (w.add x).queue.length := by
      unfold add
      split_ifs
      · rfl
      · simp only [List.length_append, List.length_singleton]
        omega
    have hxs := @ih (w.add x)
    change ((w.add x).addAll xs).seen.length + w.queue.length
      = w.seen.length + ((w.add x).addAll xs).queue.length
    omega

end Work

/-- The rounds of a query, none if there are not enough of them. -/
def run (step : α → List α) : ℕ → Work α → Option (List α)
  | 0, _ => none
  | fuel + 1, w =>
    match w.queue with
    | [] => some w.seen
    | x :: queue => run step fuel (Work.addAll ⟨queue, w.seen⟩ (step x))

def query (step : α → List α) (fuel : ℕ) (init : List α) : Option (List α) :=
  run step fuel (Work.addAll ⟨[], []⟩ init)

/-- One row follows from another. -/
def Follows (step : α → List α) (x y : α) : Prop := y ∈ step x

def Reached (step : α → List α) (init : List α) (x : α) : Prop :=
  ∃ i ∈ init, Relation.ReflTransGen (Follows step) i x

/-- What holds between two rounds. -/
structure Inv (step : α → List α) (init : List α) (w : Work α) : Prop where
  nodup : w.seen.Nodup
  queued : ∀ x ∈ w.queue, x ∈ w.seen
  started : ∀ i ∈ init, i ∈ w.seen
  reached : ∀ x ∈ w.seen, Reached step init x
  closed : ∀ x ∈ w.seen, x ∉ w.queue → ∀ y ∈ step x, y ∈ w.seen

variable {step : α → List α} {init rows possible : List α} {w : Work α} {x : α} {queue : List α}

theorem inv_init : Inv step init (Work.addAll ⟨[], []⟩ init) := by
  refine ⟨Work.nodup_addAll List.nodup_nil, ?_, ?_, ?_, ?_⟩
  · intro x hx
    rw [Work.mem_queue_addAll] at hx
    rw [Work.mem_seen_addAll]
    rcases hx with hx | hx
    · exact absurd hx List.not_mem_nil
    · exact .inr hx.1
  · exact fun i hi => Work.mem_seen_addAll.2 (.inr hi)
  · intro x hx
    rcases Work.mem_seen_addAll.1 hx with hx | hx
    · exact absurd hx List.not_mem_nil
    · exact ⟨x, hx, .refl⟩
  · intro x hx hqueue
    rcases Work.mem_seen_addAll.1 hx with hx | hx
    · exact absurd hx List.not_mem_nil
    · exact absurd (Work.mem_queue_addAll.2 (.inr ⟨hx, List.not_mem_nil⟩)) hqueue

theorem inv_round (h : Inv step init w) (hw : w.queue = x :: queue) :
    Inv step init (Work.addAll ⟨queue, w.seen⟩ (step x)) := by
  have hx : x ∈ w.seen := h.queued x (by rw [hw]; exact List.mem_cons_self)
  refine ⟨Work.nodup_addAll h.nodup, ?_, ?_, ?_, ?_⟩
  · intro y hy
    rw [Work.mem_queue_addAll] at hy
    rw [Work.mem_seen_addAll]
    rcases hy with hy | hy
    · exact .inl (h.queued y (by rw [hw]; exact List.mem_cons_of_mem x hy))
    · exact .inr hy.1
  · exact fun i hi => Work.mem_seen_addAll.2 (.inl (h.started i hi))
  · intro y hy
    rcases Work.mem_seen_addAll.1 hy with hy | hy
    · exact h.reached y hy
    · obtain ⟨i, hi, hix⟩ := h.reached x hx
      exact ⟨i, hi, hix.tail hy⟩
  · intro y hy hqueue z hz
    rw [Work.mem_queue_addAll, not_or] at hqueue
    rw [Work.mem_seen_addAll]
    by_cases hyx : y = x
    · subst hyx
      exact .inr hz
    · have hseen : y ∈ w.seen := by
        by_contra hnew
        rcases Work.mem_seen_addAll.1 hy with hy | hy
        · exact hnew hy
        · exact hqueue.2 ⟨hy, hnew⟩
      have hout : y ∉ w.queue := by
        rw [hw, List.mem_cons, not_or]
        exact ⟨hyx, hqueue.1⟩
      exact .inl (h.closed y hseen hout z hz)

omit [DecidableEq α] in
/-- When the queue is empty, all that can be reached is there. -/
theorem mem_seen_of_nil (h : Inv step init w) (hw : w.queue = []) :
    x ∈ w.seen ↔ Reached step init x := by
  refine ⟨h.reached x, ?_⟩
  rintro ⟨i, hi, hix⟩
  induction hix with
  | refl => exact h.started i hi
  | tail _ hstep ih => exact h.closed _ ih (by rw [hw]; exact List.not_mem_nil) _ hstep

theorem run_spec (hpossible : ∀ x ∈ possible, ∀ y ∈ step x, y ∈ possible) {fuel : ℕ}
    (h : Inv step init w) (hseen : ∀ x ∈ w.seen, x ∈ possible)
    (hfuel : possible.length + w.queue.length < fuel + w.seen.length) :
    ∃ rows, run step fuel w = some rows ∧ rows.Nodup ∧ ∀ x, x ∈ rows ↔ Reached step init x := by
  induction fuel generalizing w with
  | zero =>
    have hlen := (h.nodup.subperm hseen).length_le
    omega
  | succ fuel ih =>
    rw [run]
    rcases hw : w.queue with _ | ⟨x, queue⟩
    · exact ⟨w.seen, rfl, h.nodup, fun x => mem_seen_of_nil h hw⟩
    · have hx : x ∈ possible := hseen x (h.queued x (by rw [hw]; exact List.mem_cons_self))
      refine ih (inv_round h hw) ?_ ?_
      · intro y hy
        rcases Work.mem_seen_addAll.1 hy with hy | hy
        · exact hseen y hy
        · exact hpossible x hx y hy
      · have hlen := @Work.length_addAll α _ ⟨queue, w.seen⟩ (step x)
        rw [hw, List.length_cons] at hfuel
        simp only at hlen
        omega

/-- The answer of a query: each row that can be reached, once. -/
theorem query_spec (hinit : ∀ i ∈ init, i ∈ possible)
    (hpossible : ∀ x ∈ possible, ∀ y ∈ step x, y ∈ possible) {fuel : ℕ}
    (hfuel : possible.length < fuel) :
    ∃ rows, query step fuel init = some rows ∧ rows.Nodup ∧
      ∀ x, x ∈ rows ↔ Reached step init x := by
  refine run_spec hpossible inv_init ?_ ?_
  · intro x hx
    rcases Work.mem_seen_addAll.1 hx with hx | hx
    · exact absurd hx List.not_mem_nil
    · exact hinit x hx
  · have hlen := @Work.length_addAll α _ ⟨[], []⟩ init
    simp only [List.length_nil] at hlen
    omega

end RecursiveQuery
