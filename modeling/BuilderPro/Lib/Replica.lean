import Mathlib.Tactic.Common

/-!
# A copy kept by pushes and replies

One entry of a copy: pushes are applied to it in the order they were sent, and the words of replies
replace it at any time.  The copy is on course when what is on its way makes it the original's entry
(`Replica.OnCourse`); nothing on its way, it is that entry (`Replica.OnCourse.eq`).  Where the
original has no entry, the copy has none and is told of none, or it loses it yet (`Replica.Told`).
-/

namespace Replica

variable {π ν : Type*} {act : π → ν → ν} {ps : List π} {words : List ν} {asked : Prop}
  {now v w : ν} {p : π}

/-- The pushes on their way are applied. -/
def after (act : π → ν → ν) (ps : List π) (v : ν) : ν := ps.foldl (fun v p => act p v) v

/-- A question that is yet to be answered, the copy itself or the word of a reply leads to `now`. -/
def OnCourse (act : π → ν → ν) (ps : List π) (words : List ν) (asked : Prop) (now v : ν) : Prop :=
  asked ∨ after act ps v = now ∨ ∃ w ∈ words, after act ps w = now

instance [DecidableEq ν] [Decidable asked] : Decidable (OnCourse act ps words asked now v) :=
  inferInstanceAs (Decidable (_ ∨ _ ∨ ∃ w ∈ words, _))

/-- A push that says nothing of the entry, or what the entry becomes whatever it is. -/
def Plain (act : π → ν → ν) (p : π) : Prop := (∀ v, act p v = v) ∨ ∀ v w, act p v = act p w

@[simp] theorem after_nil : after act [] v = v := rfl

@[simp] theorem after_cons : after act (p :: ps) v = after act ps (act p v) := rfl

theorem after_append (qs : List π) : after act (ps ++ qs) v = after act qs (after act ps v) :=
  List.foldl_append

@[simp] theorem after_concat : after act (ps ++ [p]) v = act p (after act ps v) := by
  simp [after]

theorem after_eq_self (h : ∀ p ∈ ps, act p v = v) : after act ps v = v := by
  induction ps with
  | nil => rfl
  | cons p ps ih =>
    rw [after_cons, h p List.mem_cons_self]
    exact ih fun q hq => h q (List.mem_cons_of_mem _ hq)

/-- A push that sets the entry whatever it is makes the copies one. -/
theorem after_eq_after (hp : p ∈ ps) (hact : ∀ v w, act p v = act p w) (v w : ν) :
    after act ps v = after act ps w := by
  obtain ⟨l, r, rfl⟩ := List.append_of_mem hp
  rw [after_append, after_append, after_cons, after_cons, hact]

theorem OnCourse.mono {words' : List ν} {asked' : Prop} (h : OnCourse act ps words asked now v)
    (hwords : ∀ w ∈ words, w ∈ words') (hasked : asked → asked') :
    OnCourse act ps words' asked' now v :=
  h.imp hasked (Or.imp id fun ⟨w, hw, h⟩ => ⟨w, hwords w hw, h⟩)

/-- The original changes, and a push says so. -/
theorem OnCourse.push (h : OnCourse act ps words asked now v) :
    OnCourse act (ps ++ [p]) words asked (act p now) v := by
  rcases h with h | h | ⟨w, hw, h⟩
  · exact .inl h
  · exact .inr (.inl (by rw [after_concat, h]))
  · exact .inr (.inr ⟨w, hw, by rw [after_concat, h]⟩)

theorem OnCourse.deliver (hp : Plain act p) (h : OnCourse act (p :: ps) words asked now v) :
    OnCourse act ps words asked now (act p v) := by
  rcases h with h | h | ⟨w, hw, h⟩
  · exact .inl h
  · exact .inr (.inl h)
  · rw [after_cons] at h
    rcases hp with hp | hp
    · exact .inr (.inr ⟨w, hw, by rwa [hp] at h⟩)
    · exact .inr (.inl (by rwa [hp v w]))

/-- The last of the pushes on their way, however many, do not lead away from the original. -/
def Settled (act : π → ν → ν) (ps : List π) (now : ν) : Prop :=
  ∀ qs, qs <:+ ps → after act qs now = now

theorem settled_nil : Settled act [] now := by
  intro qs hqs
  rw [List.suffix_nil.1 hqs, after_nil]

theorem Settled.push (hp : Plain act p) (h : Settled act ps now) :
    Settled act (ps ++ [p]) (act p now) := by
  intro qs hqs
  rcases List.suffix_concat_iff.1 hqs with rfl | ⟨qs, rfl, htail⟩
  · rfl
  · rw [after_concat]
    rcases hp with hp | hp
    · rw [hp, hp, h qs htail]
    · exact hp _ _

/-- A question is answered: the word of the reply is what there is now. -/
theorem Settled.answer (h : Settled act ps now) (hw : now ∈ words) :
    OnCourse act ps words asked now v :=
  .inr (.inr ⟨now, hw, h ps List.suffix_rfl⟩)

/-- With nothing on its way, the copy is the original's entry. -/
theorem OnCourse.eq (h : OnCourse act [] [] asked now v) (hasked : ¬ asked) : v = now := by
  rcases h with h | h | ⟨w, hw, -⟩
  · exact absurd h hasked
  · exact h
  · cases hw

section Told

variable {brings gone : π → Prop} {taken taken' : Prop} {now now' v : Option ν} {qs : List π}

/-- Where the original has no entry, the copy has none and no push on its way brings one, unless the
last of them says that there is none, or the entry is taken out. -/
def Told (brings gone : π → Prop) (ps : List π) (taken : Prop) (now v : Option ν) : Prop :=
  now = none → (v.isSome ∨ ∃ p ∈ ps, brings p) → (∃ p ∈ ps.getLast?, gone p) ∨ taken

theorem Told.deliver (act : π → Option ν → Option ν) (hbrings : ¬brings p → act p none = none)
    (hgone : gone p → act p v = none) (h : Told brings gone (p :: ps) taken now v) :
    Told brings gone ps taken now (act p v) := by
  intro hnow hknown
  have hold : v.isSome ∨ ∃ q ∈ p :: ps, brings q := by
    rcases hknown with hv | ⟨q, hq, hb⟩
    · by_cases hb : brings p
      · exact .inr ⟨p, List.mem_cons_self, hb⟩
      · rcases v with _ | v
        · rw [hbrings hb] at hv
          cases hv
        · exact .inl rfl
    · exact .inr ⟨q, List.mem_cons_of_mem _ hq, hb⟩
  rcases h hnow hold with ⟨q, hq, hg⟩ | ht
  · rcases ps with _ | ⟨p', ps⟩
    · obtain rfl : p = q := by simpa using hq
      rw [hgone hg] at hknown
      simp at hknown
    · exact .inl ⟨q, by rwa [List.getLast?_cons_cons] at hq, hg⟩
  · exact .inr ht

/-- The original changes, and pushes say so. -/
theorem Told.push (h : Told brings gone ps taken now v) (htaken : taken → taken')
    (hnews : now' = none → (∃ p ∈ qs.getLast?, gone p) ∨ (qs = [] ∧ now = none) ∨ taken') :
    Told brings gone (ps ++ qs) taken' now' v := by
  intro hnow hknown
  rcases hnews hnow with ⟨p, hp, hg⟩ | ⟨rfl, hnone⟩ | ht
  · refine .inl ⟨p, ?_, hg⟩
    rw [List.getLast?_append, Option.mem_def.1 hp]
    rfl
  · rw [List.append_nil] at hknown ⊢
    exact (h hnone hknown).imp_right htaken
  · exact .inr ht

/-- The original changes without a push: what is missed leaves the copy all the same. -/
theorem Told.missed (now : Option ν) (h : Told brings gone ps taken now v)
    (hmiss : now' = none → now.isSome → (v.isSome ∨ ∃ p ∈ ps, brings p) →
      (∃ p ∈ ps.getLast?, gone p) ∨ taken) : Told brings gone ps taken now' v := by
  intro hnow hknown
  rcases hn : now with _ | x
  · exact h hn hknown
  · exact hmiss hnow (by rw [hn]; rfl) hknown

/-- An entry is put in the copy, or taken out. -/
theorem Told.put {w : Option ν} (h : Told brings gone ps taken now v)
    (hw : w.isSome → now = none → v.isSome ∨ (∃ p ∈ ps.getLast?, gone p) ∨ taken) :
    Told brings gone ps taken now w := by
  intro hnow hknown
  rcases hknown with hsome | hb
  · rcases hw hsome hnow with hv | hl
    · exact h hnow (.inl hv)
    · exact hl
  · exact h hnow (.inr hb)

/-- With nothing on its way, the copy has no entry that the original lacks. -/
theorem Told.eq_none (h : Told brings gone [] taken none v) (ht : ¬taken) : v = none := by
  by_contra hv
  rcases h rfl (.inl (Option.isSome_iff_ne_none.2 hv)) with ⟨p, hp, -⟩ | h
  · cases hp
  · exact ht h

end Told

end Replica
