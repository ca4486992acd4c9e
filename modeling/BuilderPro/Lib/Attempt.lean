import Mathlib.Tactic.Common

/-!
# Attempts

An attempt changes a state and may fail on the way; what it had done by then stays done.  What its
failures leave is reasoned about with a rule for each way an attempt is put together
(`failsIn_bind`), and a transaction restores its part of the state when the attempt inside it fails.
-/

/-- A computation on a state which, when it fails, leaves the state as it was by then. -/
def Attempt (σ ε α : Type) := σ → Except ε α × σ

namespace Attempt

variable {σ ε α β : Type}

instance : Monad (Attempt σ ε) where
  pure a := fun s => (.ok a, s)
  bind x f := fun s =>
    match x s with
    | (.ok a, t) => f a t
    | (.error e, t) => (.error e, t)

/-- A question about the state. -/
def ask (x : σ → Except ε α) : Attempt σ ε α := fun s => (x s, s)

/-- A change of the state. -/
def change (f : σ → σ) : Attempt σ ε Unit := fun s => (.ok (), f s)

/-- A point that may fail. -/
def fault (e : Option ε) : Attempt σ ε Unit := ask fun _ => e.elim (.ok ()) .error

/-- An attempt whose failure is followed by a restoration. -/
def transact (restore : σ → σ → σ) (x : Attempt σ ε α) : Attempt σ ε α := fun s =>
  match x s with
  | (.ok a, t) => (.ok a, t)
  | (.error e, t) => (.error e, restore s t)

/-- Whatever the attempt fails with, it leaves a state of a kind. -/
def FailsIn (P : σ → Prop) (x : Attempt σ ε α) (s : σ) : Prop :=
  ∀ e t, x s = (.error e, t) → P t

variable {P : σ → Prop} {x : Attempt σ ε α} {f : α → Attempt σ ε β} {s t : σ} {a : α} {e : ε}

@[simp] theorem pure_apply : (pure a : Attempt σ ε α) s = (.ok a, s) := rfl

theorem bind_apply : (x >>= f) s =
    match x s with
    | (.ok a, t) => f a t
    | (.error e, t) => (.error e, t) := rfl

theorem bind_of_ok (h : x s = (.ok a, t)) : (x >>= f) s = f a t := by
  rw [bind_apply, h]

theorem bind_of_error (h : x s = (.error e, t)) : (x >>= f) s = (.error e, t) := by
  rw [bind_apply, h]

theorem bind_eq_ok {b : β} {u : σ} :
    (x >>= f) s = (.ok b, u) ↔ ∃ a t, x s = (.ok a, t) ∧ f a t = (.ok b, u) := by
  rcases h : x s with ⟨e | a, t⟩
  · rw [bind_of_error h]
    simp
  · rw [bind_of_ok h]
    simp

@[simp] theorem ask_eq_ok {y : σ → Except ε α} :
    ask y s = (.ok a, t) ↔ y s = .ok a ∧ s = t := by
  simp [ask]

@[simp] theorem fault_eq_ok {o : Option ε} {u : Unit} :
    (fault o : Attempt σ ε Unit) s = (.ok u, t) ↔ o = none ∧ s = t := by
  rcases o with _ | e <;> simp [fault, Option.elim]

@[simp] theorem change_eq_ok {g : σ → σ} {u : Unit} :
    (change g : Attempt σ ε Unit) s = (.ok u, t) ↔ g s = t := by
  simp [change]

@[simp] theorem pure_eq_ok {b : α} :
    (pure a : Attempt σ ε α) s = (.ok b, t) ↔ a = b ∧ s = t := by
  simp

/-! ### What failures leave -/

@[simp] theorem failsIn_pure : FailsIn P (pure a : Attempt σ ε α) s := by
  intro e t h
  simp at h

@[simp] theorem failsIn_change {g : σ → σ} : FailsIn P (change g : Attempt σ ε Unit) s := by
  intro e t h
  simp [change] at h

theorem failsIn_ask {y : σ → Except ε α} :
    FailsIn P (ask y) s ↔ ∀ e, y s = .error e → P s := by
  constructor
  · intro h e he
    exact h e s (by rw [ask, he])
  · intro h e t he
    obtain ⟨hy, rfl⟩ := Prod.mk.inj he
    exact h e hy

@[simp] theorem failsIn_fault {o : Option ε} :
    FailsIn P (fault o : Attempt σ ε Unit) s ↔ (o.isSome → P s) := by
  rw [fault, failsIn_ask]
  rcases o with _ | e <;> simp

/-- An attempt fails in its first part or, that done, in the second. -/
theorem failsIn_bind : FailsIn P (x >>= f) s ↔
    FailsIn P x s ∧ ∀ a t, x s = (.ok a, t) → FailsIn P (f a) t := by
  rcases h : x s with ⟨e | a, t⟩
  · unfold FailsIn
    rw [bind_of_error h, h]
    simp
  · unfold FailsIn
    rw [bind_of_ok h, h]
    simp

theorem failsIn_discard : FailsIn P (x >>= fun _ => (pure () : Attempt σ ε Unit)) s ↔
    FailsIn P x s := by
  rw [failsIn_bind]
  exact and_iff_left fun _ _ _ => failsIn_pure

theorem map_bind {γ : Type} {g : α → β} {k : β → Attempt σ ε γ} :
    (g <$> x) >>= k = x >>= fun a => k (g a) := by
  funext s
  rcases h : x s with ⟨e | a, t⟩
  · have hmap : (g <$> x) s = (.error e, t) := bind_of_error h
    rw [bind_of_error hmap, bind_of_error h]
  · have hmap : (g <$> x) s = (.ok (g a), t) := bind_of_ok h
    rw [bind_of_ok hmap, bind_of_ok h]

/-! ### Attempts that only ask -/

/-- The attempt leaves the state as it is. -/
def Asks (x : Attempt σ ε α) : Prop := ∀ s, (x s).2 = s

theorem asks_pure : Asks (pure a : Attempt σ ε α) := fun _ => rfl

theorem asks_ask {y : σ → Except ε α} : Asks (ask y) := fun _ => rfl

theorem asks_fault {o : Option ε} : Asks (fault o : Attempt σ ε Unit) := fun _ => rfl

theorem Asks.bind (hx : Asks x) (hf : ∀ a, Asks (f a)) : Asks (x >>= f) := by
  intro s
  have hs := hx s
  rcases h : x s with ⟨e | a, t⟩ <;> rw [h] at hs
  · rw [bind_of_error h]
    exact hs
  · rw [bind_of_ok h, hf a t]
    exact hs

theorem Asks.bind_eq_ok (hx : Asks x) {b : β} :
    ((x >>= f) s).1 = .ok b ↔ ∃ a, (x s).1 = .ok a ∧ (f a s).1 = .ok b := by
  have hkeep := hx s
  rcases h : x s with ⟨e | a, t⟩ <;> rw [h] at hkeep <;> obtain rfl := hkeep
  · rw [bind_of_error h]
    simp
  · rw [bind_of_ok h]
    simp

/-- What is asked where failing is fine. -/
theorem Asks.failsIn_bind (hx : Asks x) (hs : P s) :
    FailsIn P (x >>= f) s ↔ ∀ a, (x s).1 = .ok a → FailsIn P (f a) s := by
  have hkeep := hx s
  rcases h : x s with ⟨e | a, t⟩ <;> rw [h] at hkeep <;> obtain rfl := hkeep
  · unfold FailsIn
    rw [bind_of_error h]
    simp [hs]
  · unfold FailsIn
    rw [bind_of_ok h]
    simp

/-! ### Attempts that keep a part of the state -/

/-- The attempt fails. -/
def Fails (x : Attempt σ ε α) (s : σ) : Prop := ∃ e t, x s = (.error e, t)

/-- The attempt leaves what is seen of the state as it is. -/
def Keeps {τ : Type} (view : σ → τ) (x : Attempt σ ε α) : Prop := ∀ s, view (x s).2 = view s

variable {τ : Type} {view : σ → τ}

theorem Asks.keeps (hx : Asks x) : Keeps view x := fun s => congrArg view (hx s)

theorem Keeps.bind (hx : Keeps view x) (hf : ∀ a, Keeps view (f a)) : Keeps view (x >>= f) := by
  intro s
  have hs := hx s
  rcases h : x s with ⟨e | a, t⟩ <;> rw [h] at hs
  · rw [bind_of_error h]
    exact hs
  · rw [bind_of_ok h, hf a t]
    exact hs

/-- An attempt that keeps the view leaves one when it fails exactly if it does not fail or has it
at the start. -/
theorem Keeps.failsIn_iff {v : τ} (hx : Keeps view x) :
    FailsIn (fun t => view t = v) x s ↔ (Fails x s → view s = v) := by
  constructor
  · rintro h ⟨e, t, ht⟩
    rw [← hx s, ht]
    exact h e t ht
  · intro h e t ht
    have hview := hx s
    rw [ht] at hview
    exact hview.trans (h ⟨e, t, ht⟩)

theorem not_fails_pure : ¬Fails (pure a : Attempt σ ε α) s := by
  rintro ⟨e, t, h⟩
  simp at h

theorem fails_bind_of_ok (h : x s = (.ok a, t)) : Fails (x >>= f) s ↔ Fails (f a) t := by
  unfold Fails
  rw [bind_of_ok h]

theorem fails_bind_of_error (h : x s = (.error e, t)) : Fails (x >>= f) s :=
  ⟨e, t, bind_of_error h⟩

theorem fails_fault_bind {o : Option ε} {k : Unit → Attempt σ ε β} :
    Fails (fault o >>= k) s ↔ o.isSome ∨ Fails (k ()) s := by
  rcases o with _ | e
  · have hok : (fault none : Attempt σ ε Unit) s = (.ok (), s) := rfl
    rw [fails_bind_of_ok hok]
    simp
  · have herr : (fault (some e) : Attempt σ ε Unit) s = (.error e, s) := rfl
    exact iff_of_true (fails_bind_of_error herr) (.inl rfl)

theorem transact_eq_ok {restore : σ → σ → σ} :
    transact restore x s = (.ok a, t) ↔ x s = (.ok a, t) := by
  unfold transact
  rcases x s with ⟨e | b, u⟩ <;> simp

/-- A failed transaction leaves the state as it was exactly when the attempt inside it fails in
states that the restoration takes back to it. -/
theorem transact_eq_self_iff {restore : σ → σ → σ} :
    (∀ e t, transact restore x s = (.error e, t) → t = s) ↔
      FailsIn (fun t => restore s t = s) x s := by
  unfold FailsIn transact
  rcases x s with ⟨e | a, t⟩
  · simp only [Prod.mk.injEq, Except.error.injEq, and_imp]
    constructor
    · rintro h e' t' rfl rfl
      exact h e _ rfl rfl
    · rintro h e' t' rfl rfl
      exact h e t rfl rfl
  · simp

end Attempt
