import Mathlib.Tactic.Common

/-!
# Guarded refreshes

A value held as a copy is refreshed by fetches, of which at most one is under way: a call that finds
one under way only marks the guard, and another fetch follows it.  An answer is taken over unless a
call came after its fetch began.  Each step of the guard keeps that the copy will be up to date once
the guard has come to rest (`RefreshGuard.Settles`).
-/

inductive FetchPhase (ν : Type*)
  | waiting
  | answered (value : ν)
  | failed
  deriving DecidableEq

structure FetchAttempt (ν : Type*) where
  epoch : ℕ
  phase : FetchPhase ν
  deriving DecidableEq

structure RefreshGuard (ν : Type*) where
  epoch : ℕ
  inFlight : Option (FetchAttempt ν)
  dirty : Bool
  current : ∀ a ∈ inFlight, dirty = false → a.epoch = epoch
  clean : inFlight = none → dirty = false

namespace RefreshGuard

variable {ν : Type*} (g : RefreshGuard ν)

def idle : RefreshGuard ν := ⟨0, none, false, nofun, fun _ => rfl⟩

/-- A fetch of the latest epoch, and no call since. -/
def start (epoch : ℕ) : RefreshGuard ν :=
  ⟨epoch, some ⟨epoch, .waiting⟩, false, by simp, nofun⟩

def call : RefreshGuard ν :=
  match g.inFlight with
  | some a => ⟨g.epoch + 1, some a, true, nofun, nofun⟩
  | none => start (g.epoch + 1)

/-- The fetch under way, once it waits no longer. -/
def put (phase : FetchPhase ν) : Option (RefreshGuard ν) :=
  match h : g.inFlight with
  | some ⟨e, .waiting⟩ =>
    some ⟨g.epoch, some ⟨e, phase⟩, g.dirty, by
      rintro _ ⟨⟩
      exact g.current ⟨e, .waiting⟩ h, nofun⟩
  | _ => none

/-- The loop goes round again when a call came in between. -/
def next : RefreshGuard ν :=
  if g.dirty then start g.epoch else ⟨g.epoch, none, false, nofun, fun _ => rfl⟩

/-- What the fetch under way brings, if it is still current. -/
def settle : Option (Option ν × RefreshGuard ν) :=
  match g.inFlight with
  | some ⟨e, .answered v⟩ => some (if e = g.epoch then some v else none, g.next)
  | some ⟨_, .failed⟩ => some (none, g.next)
  | _ => none

/-- A fetch that is yet to be answered will be taken over. -/
def Due : Prop := g.dirty = true ∨ ∃ e, g.inFlight = some ⟨e, .waiting⟩

/-- A copy `held` becomes `now` unless `now` changes. -/
def Settles (held now : ν) : Prop :=
  g.dirty = true ∨
    match g.inFlight with
    | some ⟨_, .waiting⟩ => True
    | some ⟨_, .answered v⟩ => v = now
    | some ⟨_, .failed⟩ | none => held = now

instance : Decidable g.Due :=
  match h : g.inFlight with
  | some ⟨e, .waiting⟩ => isTrue (.inr ⟨e, h⟩)
  | some ⟨_, .answered _⟩ | some ⟨_, .failed⟩ | none =>
    decidable_of_iff (g.dirty = true) (by simp [Due, h])

instance [DecidableEq ν] (held now : ν) : Decidable (g.Settles held now) :=
  match h : g.inFlight with
  | some ⟨_, .waiting⟩ => isTrue (by simp [Settles, h])
  | some ⟨_, .answered v⟩ => decidable_of_iff (g.dirty = true ∨ v = now) (by simp [Settles, h])
  | some ⟨_, .failed⟩ | none =>
    decidable_of_iff (g.dirty = true ∨ held = now) (by simp [Settles, h])

variable {g} {held now : ν}

theorem Due.settles (h : g.Due) : g.Settles held now := by
  rcases h with h | ⟨e, h⟩
  · exact .inl h
  · right
    rw [h]
    trivial

theorem due_start (epoch : ℕ) : (start epoch : RefreshGuard ν).Due := .inr ⟨epoch, rfl⟩

theorem due_call (g : RefreshGuard ν) : g.call.Due := by
  unfold call
  split
  · exact .inl rfl
  · exact due_start _

/-- The answer to a fetch is what there is now. -/
theorem settles_answer {g' : RefreshGuard ν} (h : g.put (.answered now) = some g') :
    g'.Settles held now := by
  unfold put at h
  split at h
  · obtain rfl := Option.some.inj h
    exact .inr rfl
  · cases h

theorem settles_settle {r : Option ν} {g' : RefreshGuard ν} (hg : g.Settles held now)
    (h : g.settle = some (r, g')) : g'.Settles (r.getD held) now := by
  by_cases hd : g.dirty = true
  · have hnext : g.next = start g.epoch := by rw [next, if_pos hd]
    unfold settle at h
    split at h <;> cases h <;> exact hnext ▸ (due_start _).settles
  · have hcur := g.current
    have hnext : g.next.Settles (r.getD held) now ↔ r.getD held = now := by simp [next, hd, Settles]
    have hg := hg.resolve_left hd
    unfold settle at h
    split at h
    · rename_i e v hin
      rw [hin] at hg
      have he : e = g.epoch := hcur ⟨e, .answered v⟩ hin (by simpa using hd)
      rw [if_pos he] at h
      obtain ⟨rfl, rfl⟩ := Prod.mk.inj (Option.some.inj h)
      exact hnext.2 hg
    · rename_i e hin
      rw [hin] at hg
      obtain ⟨rfl, rfl⟩ := Prod.mk.inj (Option.some.inj h)
      exact hnext.2 hg
    · cases h

theorem eq_of_settles (h : g.Settles held now) (hin : g.inFlight = none) : held = now := by
  rcases h with h | h
  · rw [g.clean hin] at h
    cases h
  · rwa [hin] at h

end RefreshGuard
