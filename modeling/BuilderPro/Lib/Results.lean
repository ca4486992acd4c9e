import Mathlib.Tactic.Common

/-!
# Computations that may fail

When a computation in `Except` succeeds: each of its steps does, and none of its checks throws.
-/

namespace Results

variable {ε α β : Type}

@[simp] theorem bind_eq_ok {x : Except ε α} {f : α → Except ε β} {b : β} :
    (x >>= f) = .ok b ↔ ∃ a, x = .ok a ∧ f a = .ok b := by
  rcases x with e | a
  · exact iff_of_false nofun fun ⟨_, h, _⟩ => nomatch h
  · exact ⟨fun h => ⟨a, rfl, h⟩, fun ⟨_, h, hf⟩ => by cases h; exact hf⟩

theorem bind_ne_error {x : Except ε α} {f : α → Except ε β} {e : ε} (hx : x ≠ .error e)
    (hf : ∀ a, f a ≠ .error e) : (x >>= f) ≠ .error e := by
  rcases x with e' | a
  · intro h
    cases h
    exact hx rfl
  · exact hf a

@[simp] theorem map_eq_ok {x : Except ε α} {f : α → β} {b : β} :
    (f <$> x) = .ok b ↔ ∃ a, x = .ok a ∧ f a = b := by
  rcases x with e | a
  · exact iff_of_false nofun fun ⟨_, h, _⟩ => nomatch h
  · exact ⟨fun h => ⟨a, rfl, by cases h; rfl⟩, fun ⟨_, h, hf⟩ => by cases h; cases hf; rfl⟩

@[simp] theorem pure_eq_ok {a b : α} : (pure a : Except ε α) = .ok b ↔ a = b :=
  ⟨fun h => by cases h; rfl, fun h => by rw [h]; rfl⟩

@[simp] theorem throw_eq_ok {e : ε} {a : α} : (throw e : Except ε α) = .ok a ↔ False :=
  iff_of_false nofun id

@[simp] theorem ite_error_eq_ok {c : Prop} [Decidable c] {e : ε} {x : Except ε α} {a : α} :
    (if c then .error e else x) = .ok a ↔ ¬ c ∧ x = .ok a := by
  split_ifs with h <;> simp [h]

@[simp] theorem ite_throw_eq_ok {c : Prop} [Decidable c] {e : ε} {x : Except ε α} {a : α} :
    (if c then throw e else x) = .ok a ↔ ¬ c ∧ x = .ok a :=
  ite_error_eq_ok

@[simp] theorem throw_bind {e : ε} {f : α → Except ε β} : (throw e >>= f) = throw e := rfl

@[simp] theorem pure_bind {a : α} {f : α → Except ε β} : (pure a >>= f) = f a := rfl

@[simp] theorem mapError_eq_ok {ε' : Type} {x : Except ε α} {f : ε → ε'} {a : α} :
    x.mapError f = .ok a ↔ x = .ok a := by
  cases x <;> simp [Except.mapError]

/-- A list all of whose elements have a result has the list of the results. -/
theorem exists_mapM_eq_ok {f : α → Except ε β} {xs : List α} (h : ∀ x ∈ xs, ∃ y, f x = .ok y) :
    ∃ ys, xs.mapM f = .ok ys ∧ ∀ x ∈ xs, ∀ y, f x = .ok y → y ∈ ys := by
  induction xs with
  | nil => exact ⟨[], rfl, fun x hx => absurd hx List.not_mem_nil⟩
  | cons x xs ih =>
    obtain ⟨y, hy⟩ := h x List.mem_cons_self
    obtain ⟨ys, hys, hall⟩ := ih fun z hz => h z (List.mem_cons_of_mem x hz)
    refine ⟨y :: ys, ?_, fun z hz w hw => ?_⟩
    · rw [List.mapM_cons, hy, hys]
      rfl
    · rcases List.mem_cons.1 hz with rfl | hz
      · rw [hy, Except.ok.injEq] at hw
        exact hw ▸ List.mem_cons_self
      · exact List.mem_cons_of_mem y (hall z hz w hw)

section FoldlM

variable {σ : Type} {f : σ → α → Except ε σ}

@[simp] theorem foldlM_nil_eq_ok {s t : σ} : [].foldlM f s = .ok t ↔ s = t := pure_eq_ok

@[simp] theorem foldlM_cons_eq_ok {x : α} {xs : List α} {s u : σ} :
    (x :: xs).foldlM f s = .ok u ↔ ∃ t, f s x = .ok t ∧ xs.foldlM f t = .ok u := bind_eq_ok

/-- What each step of a successful fold adds, the fold adds. -/
theorem foldlM_rel {R : σ → List α → σ → Prop} (hnil : ∀ s, R s [] s)
    (hcons : ∀ s x t xs u, f s x = .ok t → R t xs u → R s (x :: xs) u) {xs : List α} {s u : σ}
    (h : xs.foldlM f s = .ok u) : R s xs u := by
  induction xs generalizing s with
  | nil =>
    obtain rfl := foldlM_nil_eq_ok.1 h
    exact hnil s
  | cons x xs ih =>
    obtain ⟨t, ht, h⟩ := foldlM_cons_eq_ok.1 h
    exact hcons s x t xs u ht (ih h)

/-- What each step keeps, a successful fold keeps. -/
theorem foldlM_keeps {I : σ → Prop} (hf : ∀ s x t, f s x = .ok t → I s → I t) {xs : List α}
    {s t : σ} (h : xs.foldlM f s = .ok t) (hs : I s) : I t :=
  foldlM_rel (R := fun s _ t => I s → I t) (fun _ => id)
    (fun s x t _ _ hx ht hs => ht (hf s x t hx hs)) h hs

end FoldlM

end Results
