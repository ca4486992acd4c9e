import Mathlib.Data.List.DropRight
import Mathlib.Data.List.Induction

/-!
# Strings of JavaScript

A string is the list of its UTF-16 code units, surrogates that stand alone included; and what its
methods do, as far as they are used here.
-/

namespace Js

/-- A string, by its code units. -/
abbrev Text := List UInt16

/-- The code unit of an ASCII character. -/
def unit (c : Char) : UInt16 := c.toNat.toUInt16

def lf : UInt16 := 0x0a

def cr : UInt16 := 0x0d

/-- What ends a line, so that `.` does not match it. -/
def isLineTerminator (u : UInt16) : Bool := u ∈ [0x0a, 0x0d, 0x2028, 0x2029]

/-- What `\s` matches and `trim` takes away. -/
def isWhiteSpace (u : UInt16) : Bool :=
  isLineTerminator u || u ∈ [0x09, 0x0b, 0x0c, 0x20, 0xa0, 0x1680, 0x2000, 0x2001, 0x2002, 0x2003,
    0x2004, 0x2005, 0x2006, 0x2007, 0x2008, 0x2009, 0x200a, 0x202f, 0x205f, 0x3000, 0xfeff]

def trimStart (t : Text) : Text := t.dropWhile isWhiteSpace

def trimEnd (t : Text) : Text := t.rdropWhile isWhiteSpace

def trim (t : Text) : Text := trimEnd (trimStart t)

/-- `split`, at a code unit. -/
def split (t : Text) (u : UInt16) : List Text := t.splitOn u

def join (l : List Text) (sep : Text) : Text := List.intercalate sep l

def startsWith (t pat : Text) : Bool := pat.isPrefixOf t

/-- `indexOf`, of a pattern that is not empty; where it gives `-1`, there is none. -/
def indexOf (t pat : Text) (start : ℕ) : Option ℕ :=
  (List.range' start (t.length - start)).find? fun k => startsWith (t.drop k) pat

/-- `slice`, of a range in order. -/
def slice (t : Text) (start stop : ℕ) : Text := (t.take stop).drop start

variable {t pat : Text} {u : UInt16} {start k i j : ℕ}

theorem indexOf_eq_some (h : indexOf t pat start = some k) :
    start ≤ k ∧ k < t.length ∧ pat <+: t.drop k := by
  have hmem := List.mem_of_find?_eq_some h
  have hfound := List.find?_some h
  rw [List.mem_range'_1] at hmem
  exact ⟨hmem.1, by omega, List.isPrefixOf_iff_prefix.1 hfound⟩

/-! ### Slices -/

theorem take_append_slice (h : i ≤ j) : t.take i ++ slice t i j = t.take j := by
  have hsplit := List.take_append_drop i (t.take j)
  rwa [List.take_take, Nat.min_eq_left h] at hsplit

theorem slice_eq_pat (h : pat <+: t.drop i) : slice t i (i + pat.length) = pat := by
  obtain ⟨rest, hrest⟩ := h
  rw [slice, List.drop_take, Nat.add_sub_cancel_left, ← hrest, List.take_left]

theorem slice_append_slice (hij : i ≤ j) (hjk : j ≤ k) :
    slice t i j ++ slice t j k = slice t i k := by
  have hi : t.take i ++ (slice t i j ++ slice t j k) = t.take i ++ slice t i k := by
    rw [← List.append_assoc, take_append_slice hij, take_append_slice hjk,
      take_append_slice (hij.trans hjk)]
  exact List.append_cancel_left hi

theorem slice_succ (h : t[i]? = some u) : slice t i (i + 1) = [u] := by
  have hpat : [u] <+: t.drop i := by
    obtain ⟨hlen, hget⟩ := List.getElem?_eq_some_iff.1 h
    rw [List.drop_eq_getElem_cons hlen, hget]
    exact ⟨_, rfl⟩
  exact slice_eq_pat hpat

theorem getElem?_of_pat (h : [u] <+: t.drop i) : t[i]? = some u := by
  obtain ⟨rest, hrest⟩ := h
  rw [← List.head?_drop, ← hrest]
  rfl

/-! ### Trimming -/

theorem trimEnd_concat (h : isWhiteSpace u = true) : trimEnd (t ++ [u]) = trimEnd t :=
  List.rdropWhile_concat_pos _ _ _ h

theorem trim_concat (h : isWhiteSpace u = true) : trim (t ++ [u]) = trim t := by
  unfold trim trimStart
  by_cases hall : ∀ v ∈ t, isWhiteSpace v = true
  · have ht : t.dropWhile isWhiteSpace = [] := List.dropWhile_eq_nil_iff.2 hall
    rw [ht, List.dropWhile_eq_nil_iff.2]
    intro v hv
    rcases List.mem_append.1 hv with hv | hv
    · exact hall v hv
    · rwa [List.mem_singleton.1 hv]
  · have ht : t.dropWhile isWhiteSpace ≠ [] := fun hnil =>
      hall (List.dropWhile_eq_nil_iff.1 hnil)
    rw [List.dropWhile_append, if_neg (by simpa using ht)]
    exact trimEnd_concat h

/-! ### Lines -/

theorem split_cons (v : UInt16) (t : Text) : split (v :: t) u =
    if v = u then [] :: split t u else (split t u).modifyHead (List.cons v) := by
  unfold split
  rw [List.splitOn_cons_eq_if_modifyHead]
  simp only [beq_iff_eq]

theorem exists_split (t : Text) (u : UInt16) : ∃ l ls, split t u = l :: ls :=
  List.exists_cons_of_ne_nil (List.splitOn_ne_nil u t)

theorem notMem_of_mem_split {l : Text} (h : l ∈ split t u) : u ∉ l := by
  induction t generalizing l with
  | nil =>
    obtain rfl := List.mem_singleton.1 h
    simp
  | cons v t ih =>
    rw [split_cons] at h
    split_ifs at h with hv
    · rcases List.mem_cons.1 h with rfl | h
      · simp
      · exact ih h
    · obtain ⟨l', ls, hsplit⟩ := exists_split t u
      rw [hsplit, List.modifyHead_cons] at h
      rcases List.mem_cons.1 h with rfl | h
      · have hl' := @ih l' (by simp [hsplit])
        simp [Ne.symm hv, hl']
      · exact ih (by simp [hsplit, h])

/-- What is left out of a text is left out of its lines. -/
theorem split_filter {p : UInt16 → Bool} (h : p u = true) :
    split (t.filter p) u = (split t u).map (List.filter p) := by
  induction t with
  | nil => rfl
  | cons v t ih =>
    obtain ⟨l, ls, hsplit⟩ := exists_split t u
    rw [hsplit, List.map_cons] at ih
    rw [split_cons]
    by_cases hv : v = u
    · subst hv
      rw [List.filter_cons_of_pos h, split_cons, if_pos rfl, if_pos rfl, ih, hsplit]
      simp
    · rw [if_neg hv, hsplit, List.modifyHead_cons, List.map_cons]
      by_cases hpv : p v = true
      · rw [List.filter_cons_of_pos hpv, List.filter_cons_of_pos hpv, split_cons, if_neg hv, ih]
        rfl
      · rw [List.filter_cons_of_neg hpv, List.filter_cons_of_neg hpv, ih]

/-- As many lines that are joined to the same text are the same. -/
theorem join_inj {l l' : List Text} (hlen : l.length = l'.length) (hl : ∀ x ∈ l, u ∉ x)
    (hl' : ∀ x ∈ l', u ∉ x) (h : join l [u] = join l' [u]) : l = l' := by
  rcases l with _ | ⟨x, l⟩
  · exact (List.length_eq_zero_iff.1 hlen.symm).symm
  · rcases l' with _ | ⟨y, l'⟩
    · simp at hlen
    · have hsplit := congrArg (fun t => split t u) h
      unfold join split at hsplit
      rwa [List.splitOn_intercalate u hl (by simp), List.splitOn_intercalate u hl' (by simp)]
        at hsplit

theorem join_append {l l' : List Text} {sep : Text} (hl : l ≠ []) (hl' : l' ≠ []) :
    join (l ++ l') sep = join l sep ++ sep ++ join l' sep := by
  unfold join
  induction l with
  | nil => exact absurd rfl hl
  | cons x l ih =>
    rw [List.cons_append, List.intercalate_cons_of_ne_nil (by simp [hl'])]
    by_cases hnil : l = []
    · subst hnil
      rw [List.nil_append, List.intercalate_singleton]
    · rw [ih hnil, List.intercalate_cons_of_ne_nil hnil]
      simp only [List.append_assoc]

/-- More lines are joined to another text. -/
theorem join_ne_join_append {l l' : List Text} (hl : l ≠ []) (hl' : l' ≠ []) :
    join l [u] ≠ join (l ++ l') [u] := by
  intro h
  have hlength := congrArg List.length h
  rw [join_append hl hl', List.length_append, List.length_append, List.length_singleton] at hlength
  omega

end Js
