import Mathlib.Data.List.Infix
import Mathlib.Tactic.Common

/-!
# `LIKE` patterns

SQL's `LIKE` with an escape character: `%` stands for any text, `_` for any character, an escaped
character for itself and every other for itself in either ASCII case.  A text that is escaped
matches itself and nothing else (`like_escape_append`), so between two `%` it matches the texts it
occurs in (`like_contains`).
-/

namespace Like

/-- Upper and lower case of the ASCII letters are one. -/
def fold (s : List Char) : List Char := s.map Char.toLower

def sameChar (c d : Char) : Bool := c.toLower == d.toLower

/-- `text LIKE pattern ESCAPE escape`. -/
def like (escape : Char) : List Char → List Char → Bool
  | [], text => text.isEmpty
  | p :: ps, text =>
    if p = '%' then text.tails.any fun rest => like escape ps rest
    else if p = escape then
      match ps, text with
      | q :: qs, c :: rest => sameChar q c && like escape qs rest
      | _, _ => false
    else
      match text with
      | c :: rest => (p == '_' || sameChar p c) && like escape ps rest
      | [] => false

/-- A character that stands for something else in a pattern. -/
def IsMeta (escape c : Char) : Prop := c = escape ∨ c = '%' ∨ c = '_'

instance (escape c : Char) : Decidable (IsMeta escape c) :=
  inferInstanceAs (Decidable (c = escape ∨ c = '%' ∨ c = '_'))

/-- A text with its metacharacters escaped. -/
def escapeAll (escape : Char) (s : List Char) : List Char :=
  s.flatMap fun c => if IsMeta escape c then [escape, c] else [c]

variable {escape c : Char} {s ps text : List Char}

theorem like_percent : like escape ('%' :: ps) text = true ↔
    ∃ pre rest, text = pre ++ rest ∧ like escape ps rest = true := by
  rw [like.eq_def]
  simp only [if_true, List.any_eq_true]
  constructor
  · rintro ⟨rest, hmem, hrest⟩
    obtain ⟨pre, hpre⟩ := (List.mem_tails _ _).1 hmem
    exact ⟨pre, rest, hpre.symm, hrest⟩
  · rintro ⟨pre, rest, rfl, hrest⟩
    exact ⟨rest, (List.mem_tails _ _).2 (List.suffix_append pre rest), hrest⟩

/-- A character as it is written in an escaped text stands for itself. -/
theorem like_escaped_char (hescape : escape ≠ '%') :
    like escape ((if IsMeta escape c then [escape, c] else [c]) ++ ps) text = true ↔
      ∃ d rest, text = d :: rest ∧ sameChar c d = true ∧ like escape ps rest = true := by
  by_cases hmeta : IsMeta escape c
  · rw [if_pos hmeta, List.cons_append, List.cons_append, List.nil_append, like.eq_def]
    simp only [if_neg hescape, if_true]
    rcases text with _ | ⟨d, rest⟩
    · simp
    · simp
  · rw [if_neg hmeta]
    unfold IsMeta at hmeta
    rw [not_or, not_or] at hmeta
    obtain ⟨hesc, hpercent, hunder⟩ := hmeta
    rw [List.cons_append, List.nil_append, like.eq_def]
    simp only [if_neg hpercent, if_neg hesc]
    rcases text with _ | ⟨d, rest⟩
    · simp
    · simp [hunder]

/-- An escaped text matches itself, in either case. -/
theorem like_escape_append (hescape : escape ≠ '%') :
    like escape (escapeAll escape s ++ ps) text = true ↔
      ∃ mid rest, text = mid ++ rest ∧ fold mid = fold s ∧ like escape ps rest = true := by
  induction s generalizing text with
  | nil =>
    constructor
    · intro h
      exact ⟨[], text, rfl, rfl, h⟩
    · rintro ⟨mid, rest, rfl, hmid, h⟩
      have hnil : mid = [] := List.map_eq_nil_iff.1 hmid
      subst hnil
      exact h
  | cons c s ih =>
    rw [escapeAll, List.flatMap_cons, List.append_assoc, like_escaped_char hescape]
    constructor
    · rintro ⟨d, rest, rfl, hd, h⟩
      obtain ⟨mid, rest, rfl, hmid, h⟩ := ih.1 h
      have hcd : c.toLower = d.toLower := by simpa [sameChar] using hd
      refine ⟨d :: mid, rest, rfl, ?_, h⟩
      rw [fold, List.map_cons, ← hcd]
      exact congrArg (c.toLower :: ·) hmid
    · rintro ⟨mid, rest, rfl, hmid, h⟩
      rcases mid with _ | ⟨d, mid⟩
      · simp [fold] at hmid
      · simp only [fold, List.map_cons, List.cons.injEq] at hmid
        obtain ⟨hd, hmid⟩ := hmid
        exact ⟨d, mid ++ rest, rfl, by simp [sameChar, hd], ih.2 ⟨mid, rest, rfl, hmid, h⟩⟩

/-- Between two `%` an escaped text matches what it occurs in, in either case. -/
theorem like_contains (hescape : escape ≠ '%') :
    like escape ('%' :: (escapeAll escape s ++ ['%'])) text = true ↔ fold s <:+: fold text := by
  rw [like_percent]
  constructor
  · rintro ⟨pre, rest, rfl, h⟩
    obtain ⟨mid, rest, rfl, hmid, -⟩ := (like_escape_append hescape).1 h
    refine ⟨fold pre, fold rest, ?_⟩
    simp only [fold] at hmid ⊢
    rw [← hmid, List.map_append, List.map_append, List.append_assoc]
  · rintro ⟨pre, post, h⟩
    obtain ⟨lead, rest, rfl, hlead, hrest⟩ := List.map_eq_append_iff.1 h.symm
    obtain ⟨first, mid, rfl, -, hmid⟩ := List.map_eq_append_iff.1 hlead
    refine ⟨first, mid ++ rest, by rw [List.append_assoc], ?_⟩
    refine (like_escape_append hescape).2 ⟨mid, rest, rfl, hmid, ?_⟩
    exact like_percent.2 ⟨rest, [], by simp, rfl⟩

end Like
