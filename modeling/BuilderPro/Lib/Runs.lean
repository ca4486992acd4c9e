import Mathlib.Tactic.Common

/-!
# Runs of a partial step function

A system takes the actions of a list one after another; an action it cannot take ends the run
(`run`).  A property is kept along every run whose steps meet a condition once each such step keeps
it (`Along.keeps`), and it holds throughout exactly the runs whose steps meet the condition when the
others break it (`throughout_iff`).
-/

namespace Runs

variable {σ α : Type*} (step : σ → α → Option σ)

/-- The state after a list of actions. -/
def run (s : σ) : List α → Option σ
  | [] => some s
  | a :: as => (step s a).bind fun t => run t as

/-- Every step the run takes meets `C`. -/
def Along (C : σ → α → Prop) (s : σ) : List α → Prop
  | [] => True
  | a :: as => ∀ t, step s a = some t → C s a ∧ Along C t as

/-- Every state the run passes meets `P`. -/
def Throughout (P : σ → Prop) (s : σ) : List α → Prop
  | [] => P s
  | a :: as => P s ∧ ∀ t, step s a = some t → Throughout P t as

@[simp] theorem run_nil (s : σ) : run step s [] = some s := rfl

theorem run_cons (s : σ) (a : α) (as : List α) :
    run step s (a :: as) = (step s a).bind fun t => run step t as := rfl

theorem run_append (s : σ) (as bs : List α) :
    run step s (as ++ bs) = (run step s as).bind fun t => run step t bs := by
  induction as generalizing s with
  | nil => rfl
  | cons a as ih =>
    rw [List.cons_append, run_cons, run_cons, Option.bind_assoc]
    exact Option.bind_congr fun t _ => ih t

instance decidableAlong {C : σ → α → Prop} [∀ s a, Decidable (C s a)] (s : σ) :
    (as : List α) → Decidable (Along step C s as)
  | [] => isTrue trivial
  | a :: as =>
    match h : step s a with
    | none => isTrue fun t ht => by rw [h] at ht; cases ht
    | some u =>
      have : Decidable (Along step C u as) := decidableAlong u as
      decidable_of_iff (C s a ∧ Along step C u as)
        ⟨fun hc t ht => by rw [h] at ht; cases ht; exact hc, fun hc => hc u h⟩

variable {step} {C : σ → α → Prop} {I P : σ → Prop}

/-- What every step meeting `C` keeps holds at the end of a run of such steps. -/
theorem Along.keeps (hstep : ∀ s a t, I s → C s a → step s a = some t → I t) {s : σ}
    {as : List α} (h : Along step C s as) (hs : I s) {t : σ} (hr : run step s as = some t) :
    I t := by
  induction as generalizing s with
  | nil =>
    obtain rfl : s = t := by simpa using hr
    exact hs
  | cons a as ih =>
    rw [run_cons, Option.bind_eq_some_iff] at hr
    obtain ⟨u, hu, hr⟩ := hr
    obtain ⟨hc, h⟩ := h u hu
    exact ih h (hstep s a u hs hc hu) hr

/-- What every step meeting `C` keeps holds throughout a run of such steps, and so does what follows
from it. -/
theorem Along.throughout (hstep : ∀ s a t, I s → C s a → step s a = some t → I t)
    (hI : ∀ s, I s → P s) {s : σ} {as : List α} (h : Along step C s as) (hs : I s) :
    Throughout step P s as := by
  induction as generalizing s with
  | nil => exact hI s hs
  | cons a as ih =>
    refine ⟨hI s hs, fun t ht => ?_⟩
    obtain ⟨hc, h⟩ := h t ht
    exact ih h (hstep s a t hs hc ht)

theorem Along.and {D : σ → α → Prop} {s : σ} {as : List α} (h : Along step C s as)
    (h' : Along step D s as) : Along step (fun s a => C s a ∧ D s a) s as := by
  induction as generalizing s with
  | nil => trivial
  | cons a as ih =>
    intro t ht
    obtain ⟨hc, h⟩ := h t ht
    obtain ⟨hd, h'⟩ := h' t ht
    exact ⟨⟨hc, hd⟩, ih h h'⟩

theorem Along.and_forall {Q : α → Prop} {s : σ} {as : List α} (h : Along step C s as)
    (hq : ∀ a ∈ as, Q a) : Along step (fun s a => C s a ∧ Q a) s as := by
  induction as generalizing s with
  | nil => trivial
  | cons a as ih =>
    intro t ht
    obtain ⟨hc, h⟩ := h t ht
    exact ⟨⟨hc, hq a List.mem_cons_self⟩, ih h fun a ha => hq a (List.mem_cons_of_mem _ ha)⟩

/-- What every step keeps holds at the end of every run. -/
theorem run_keeps (hstep : ∀ s a t, I s → step s a = some t → I t) {s : σ} (hs : I s)
    {as : List α} {t : σ} (hr : run step s as = some t) : I t := by
  induction as generalizing s with
  | nil =>
    obtain rfl : s = t := by simpa using hr
    exact hs
  | cons a as ih =>
    rw [run_cons, Option.bind_eq_some_iff] at hr
    obtain ⟨u, hu, hr⟩ := hr
    exact ih (hstep s a u hs hu) hr

/-- A map that takes each step of a system to the step of another takes its runs to the runs of the
other. -/
theorem Along.run_map {τ : Type*} {step' : τ → α → Option τ} {f : σ → τ}
    (hstep : ∀ s a t, I s → C s a → step s a = some t → I t)
    (hf : ∀ s a, I s → step' (f s) a = (step s a).map f) {s : σ} {as : List α}
    (h : Along step C s as) (hs : I s) : run step' (f s) as = (run step s as).map f := by
  induction as generalizing s with
  | nil => rfl
  | cons a as ih =>
    rw [run_cons, run_cons, hf s a hs]
    rcases ht : step s a with _ | t
    · rfl
    · obtain ⟨hc, h⟩ := h t ht
      exact ih h (hstep s a t hs hc ht)

/-- What does not hold at the start of a run and holds at its end, one of its steps has brought
about. -/
theorem exists_step_of_run {s t : σ} {as : List α} (hs : ¬P s) (hr : run step s as = some t)
    (ht : P t) : ∃ pre a post u v, as = pre ++ a :: post ∧ run step s pre = some u
      ∧ step u a = some v ∧ ¬P u ∧ P v := by
  induction as generalizing s with
  | nil =>
    obtain rfl : s = t := by simpa using hr
    exact absurd ht hs
  | cons a as ih =>
    rw [run_cons, Option.bind_eq_some_iff] at hr
    obtain ⟨u, hu, hr⟩ := hr
    by_cases hp : P u
    · exact ⟨[], a, as, s, u, rfl, rfl, hu, hs, hp⟩
    · obtain ⟨pre, b, post, v, w, rfl, hpre, hb, hv, hw⟩ := ih hp hr
      exact ⟨a :: pre, b, post, v, w, rfl, by rw [run_cons, hu]; exact hpre, hb, hv, hw⟩

theorem Throughout.head {s : σ} {as : List α} (h : Throughout step P s as) : P s := by
  cases as with
  | nil => exact h
  | cons a as => exact h.1

theorem Throughout.last {s : σ} {as : List α} (h : Throughout step P s as) {t : σ}
    (hr : run step s as = some t) : P t := by
  induction as generalizing s with
  | nil =>
    obtain rfl : s = t := by simpa using hr
    exact h
  | cons a as ih =>
    rw [run_cons, Option.bind_eq_some_iff] at hr
    obtain ⟨u, hu, hr⟩ := hr
    exact ih (h.2 u hu) hr

/-- What holds throughout a run, every step leads to. -/
theorem Throughout.along {s : σ} {as : List α} (h : Throughout step P s as) :
    Along step (fun s a => ∀ t, step s a = some t → P t) s as := by
  induction as generalizing s with
  | nil => trivial
  | cons a as ih =>
    exact fun t ht => ⟨fun u hu => (h.2 u hu).head, ih (h.2 t ht)⟩

theorem along_of_forall {Q : α → Prop} (s : σ) {as : List α} (hq : ∀ a ∈ as, Q a) :
    Along step (fun _ => Q) s as := by
  induction as generalizing s with
  | nil => trivial
  | cons a as ih =>
    exact fun t _ => ⟨hq a List.mem_cons_self, ih t fun b hb => hq b (List.mem_cons_of_mem _ hb)⟩

/-- What a step from a good state meets with `C`, which keeps it good, the steps of a run of such
steps meet. -/
theorem Along.imp_of_kept {D : σ → α → Prop}
    (hI : ∀ s a t, I s → C s a → step s a = some t → I t ∧ D s a) {s : σ} {as : List α}
    (h : Along step C s as) (hs : I s) : Along step D s as := by
  induction as generalizing s with
  | nil => trivial
  | cons a as ih =>
    intro t ht
    obtain ⟨hc, h⟩ := h t ht
    obtain ⟨ht', hd⟩ := hI s a t hs hc ht
    exact ⟨hd, ih h ht'⟩

/-- Two conditions that agree on the steps from good states, which the second keeps good, are met by
the steps of the same runs. -/
theorem along_iff {D : σ → α → Prop} (hI : ∀ s a t, I s → D s a → step s a = some t → I t)
    (hC : ∀ s a t, I s → step s a = some t → (C s a ↔ D s a)) {s : σ} (hs : I s) (as : List α) :
    Along step C s as ↔ Along step D s as := by
  induction as generalizing s with
  | nil => exact iff_of_true trivial trivial
  | cons a as ih =>
    refine forall_congr' fun t => forall_congr' fun ht => ?_
    rw [hC s a t hs ht]
    exact and_congr_right fun hd => ih (hI s a t hs hd ht)

/-- What every step from a good state meets, the steps of every run from one meet. -/
theorem along_of_keeps (hI : ∀ s a t, I s → step s a = some t → I t ∧ C s a) {s : σ} (hs : I s)
    (as : List α) : Along step C s as := by
  induction as generalizing s with
  | nil => trivial
  | cons a as ih => exact fun t ht => ⟨(hI s a t hs ht).2, ih (hI s a t hs ht).1⟩

/-- When a step of some kind from a good state leads to a good one exactly if it meets `C`, the runs
of such steps that stay good are those whose steps all meet `C`. -/
theorem throughout_iff_of_along {Q : σ → α → Prop}
    (hI : ∀ s a t, I s → P s → Q s a → step s a = some t → I t)
    (hC : ∀ s a t, I s → P s → Q s a → step s a = some t → (P t ↔ C s a)) {s : σ} (hs : I s)
    (hp : P s) {as : List α} (hq : Along step Q s as) :
    Throughout step P s as ↔ Along step C s as := by
  induction as generalizing s with
  | nil => exact iff_of_true hp trivial
  | cons a as ih =>
    constructor
    · rintro ⟨-, h⟩ t ht
      obtain ⟨hqa, hqas⟩ := hq t ht
      exact ⟨(hC s a t hs hp hqa ht).1 (h t ht).head,
        (ih (hI s a t hs hp hqa ht) (h t ht).head hqas).1 (h t ht)⟩
    · refine fun h => ⟨hp, fun t ht => ?_⟩
      obtain ⟨hqa, hqas⟩ := hq t ht
      obtain ⟨hc, h⟩ := h t ht
      have hp' := (hC s a t hs hp hqa ht).2 hc
      exact (ih (hI s a t hs hp hqa ht) hp' hqas).2 h

/-- `throughout_iff_of_along`, of a kind that is one of actions. -/
theorem throughout_iff_of_forall {Q : α → Prop}
    (hI : ∀ s a t, I s → P s → Q a → step s a = some t → I t)
    (hC : ∀ s a t, I s → P s → Q a → step s a = some t → (P t ↔ C s a)) {s : σ} (hs : I s)
    (hp : P s) {as : List α} (hq : ∀ a ∈ as, Q a) :
    Throughout step P s as ↔ Along step C s as :=
  throughout_iff_of_along hI hC hs hp (along_of_forall s hq)

/-- When a step from a good state leads to a good one exactly if it meets `C`, the runs that stay
good are those whose steps all meet `C`. -/
theorem throughout_iff (hI : ∀ s a t, I s → step s a = some t → I t)
    (hC : ∀ s a t, I s → P s → step s a = some t → (P t ↔ C s a)) {s : σ} (hs : I s) (hp : P s)
    (as : List α) : Throughout step P s as ↔ Along step C s as :=
  throughout_iff_of_forall (Q := fun _ => True) (fun s a t hs _ _ => hI s a t hs)
    (fun s a t hs hp _ => hC s a t hs hp) hs hp fun _ _ => trivial

/-- The same with an invariant that the steps meeting `C` keep. -/
theorem throughout_iff_of_kept (hI : ∀ s a t, I s → C s a → step s a = some t → I t)
    (hC : ∀ s a t, I s → P s → step s a = some t → (P t ↔ C s a)) {s : σ} (hs : I s) (hp : P s)
    (as : List α) : Throughout step P s as ↔ Along step C s as := by
  induction as generalizing s with
  | nil => exact iff_of_true hp trivial
  | cons a as ih =>
    constructor
    · rintro ⟨-, h⟩ t ht
      have hp' := (h t ht).head
      have hc := (hC s a t hs hp ht).1 hp'
      exact ⟨hc, (ih (hI s a t hs hc ht) hp').1 (h t ht)⟩
    · refine fun h => ⟨hp, fun t ht => ?_⟩
      obtain ⟨hc, h⟩ := h t ht
      exact (ih (hI s a t hs hc ht) ((hC s a t hs hp ht).2 hc)).2 h

end Runs
