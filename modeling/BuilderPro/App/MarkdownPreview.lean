import BuilderPro.App.Markdown
import BuilderPro.App.MarkdownInline

/-!
# The preview of a document

Where the lines of a document end in CRLF the carriage return is part of the line, and `.` does not
match it: a heading or an item is then a plain line, and the lines of a fence keep it.  The preview is
the documented one exactly where neither happens (`previewed_iff`).
-/

namespace BuilderPro

open Js (Text)

namespace Markdown

/-- The text without its carriage returns. -/
def dropReturns (md : Text) : Text := md.filter (· ≠ Js.cr)

/-- Every carriage return that is followed by something is followed by a line feed. -/
def LineEnds (md : Text) : Prop := md.IsChain fun u v => u = Js.cr → v = Js.lf

instance : DecidablePred LineEnds := fun md =>
  inferInstanceAs (Decidable (md.IsChain fun u v => u = Js.cr → v = Js.lf))

/-- What the lines of a text add, by the documentation. -/
def contents (md : Text) : List Content := contributions false (readLines spaced (Js.split md Js.lf))

/-- A marker, with what follows it. -/
def marker (line : Text) : Option ((Text → Line) × Text) :=
  match afterHashes line with
  | some (level, rest) => some (.heading level, rest)
  | none => match afterBullet line with
    | some rest => some (.item false, rest)
    | none => (afterNumber line).map fun rest => (.item true, rest)

/-- A line outside of fences whose marker, where it has one, is read as it should: it is not followed
by a carriage return alone, nor by white space and a text with a line terminator in it. -/
def Legible (line : Text) : Prop :=
  ∀ x ∈ marker line, x.2 ≠ [Js.cr] ∧
    (x.2.head?.any Js.isWhiteSpace = true → (Js.trimStart x.2).any Js.isLineTerminator = false)

instance (line : Text) : Decidable (Legible line) :=
  inferInstanceAs (Decidable (∀ x ∈ marker line, _ ∧ (_ → _)))

/-- The lines outside of fences are legible, and those in fences have no carriage return. -/
def AllLegible : Bool → List Text → Prop
  | _, [] => True
  | inside, line :: rest =>
    if isFence line then AllLegible (!inside) rest
    else (if inside then Js.cr ∉ line else Legible line) ∧ AllLegible inside rest

instance decidableAllLegible : ∀ inside lines, Decidable (AllLegible inside lines)
  | _, [] => .isTrue trivial
  | inside, line :: rest =>
    have := decidableAllLegible (!inside) rest
    have := decidableAllLegible inside rest
    inferInstanceAs (Decidable (if isFence line then AllLegible (!inside) rest
      else (if inside then Js.cr ∉ line else Legible line) ∧ AllLegible inside rest))

/-- The blocks are the documented ones of the text without its carriage returns, and show every line
of it. -/
structure Previewed (md : Text) : Prop where
  follows : parseMarkdown md = documented (dropReturns md)
  shows : ShowAll (contents (dropReturns md)) (parseMarkdown md)

variable {line body text rest : Text} {follows : Text → Option Text} {lines : List Text}
  {md : Text}

/-! ### Markers -/

theorem head_of_afterHashes {x : ℕ × Text} (h : afterHashes line = some x) :
    x.2 <:+ line ∧ ∃ rest, line = Js.unit '#' :: rest := by
  simp only [afterHashes] at h
  split_ifs at h with hlevel
  obtain rfl := Option.some.inj h
  refine ⟨List.drop_suffix _ _, ?_⟩
  rcases line with _ | ⟨u, line⟩
  · simp at hlevel
  · by_cases hu : u = Js.unit '#'
    · exact ⟨line, by rw [hu]⟩
    · simp [hu] at hlevel

theorem head_of_afterBullet (h : afterBullet line = some text) :
    ∃ u ∈ [Js.unit '-', Js.unit '*', Js.unit '+'], line = u :: text := by
  rcases line with _ | ⟨u, line⟩
  · simp [afterBullet] at h
  · simp only [afterBullet] at h
    split_ifs at h with hu
    obtain rfl := Option.some.inj h
    exact ⟨u, hu, rfl⟩

theorem head_of_afterNumber (h : afterNumber line = some text) :
    text <:+ line ∧ ∃ u rest, line = u :: rest ∧ Js.unit '0' ≤ u ∧ u ≤ Js.unit '9' := by
  unfold afterNumber at h
  simp only [] at h
  split at h
  · simp at h
  · rename_i v after hdrop
    split_ifs at h with hdigits
    obtain rfl := Option.some.inj h
    refine ⟨(List.suffix_cons v after).trans (hdrop ▸ List.drop_suffix _ _), ?_⟩
    rcases line with _ | ⟨u, line⟩
    · simp at hdigits
    · by_cases hu : (decide (Js.unit '0' ≤ u) && decide (u ≤ Js.unit '9')) = true
      · simp only [Bool.and_eq_true, decide_eq_true_eq] at hu
        exact ⟨u, line, rfl, hu⟩
      · simp [hu] at hdigits

theorem hash_notMem_bullets : Js.unit '#' ∉ [Js.unit '-', Js.unit '*', Js.unit '+'] := by decide

theorem hash_lt_digit : Js.unit '#' < Js.unit '0' := by decide

theorem bullet_lt_digit : ∀ u ∈ [Js.unit '-', Js.unit '*', Js.unit '+'], u < Js.unit '0' := by
  simp only [List.mem_cons, List.not_mem_nil, or_false, forall_eq_or_imp, forall_eq]
  decide

/-- A line is read by its one marker. -/
theorem read_eq : read follows line = if isFence line then .fence
    else ((marker line).bind fun x => (follows x.2).map fun t => x.1 (Js.trim t)).getD
      (if Js.trim line = [] then .blank else .plain (Js.trim line)) := by
  unfold read
  by_cases hfence : isFence line = true
  · rw [if_pos hfence, if_pos hfence]
  · rw [if_neg hfence, if_neg hfence]
    rcases hhashes : afterHashes line with _ | ⟨level, after⟩
    · rcases hbullet : afterBullet line with _ | after
      · rcases hnumber : afterNumber line with _ | after
        · simp [marker, hhashes, hbullet, hnumber]
        · rcases hfollows : follows after with _ | t <;>
            simp [marker, hhashes, hbullet, hnumber, hfollows]
      · have hnumber : afterNumber line = none := by
          rcases hnumber : afterNumber line with _ | _
          · rfl
          · obtain ⟨u, hu, rfl⟩ := head_of_afterBullet hbullet
            obtain ⟨-, v, rest, hline, hv, -⟩ := head_of_afterNumber hnumber
            obtain ⟨rfl, -⟩ := List.cons.inj hline
            exact absurd hv (UInt16.not_le.2 (bullet_lt_digit u hu))
        rcases hfollows : follows after with _ | t <;>
          simp [marker, hhashes, hbullet, hnumber, hfollows]
    · obtain ⟨-, rest, rfl⟩ := head_of_afterHashes hhashes
      have hbullet : afterBullet (Js.unit '#' :: rest) = none := by
        simp only [afterBullet]
        rw [if_neg hash_notMem_bullets]
      have hnumber : afterNumber (Js.unit '#' :: rest) = none := by
        rcases hnumber : afterNumber (Js.unit '#' :: rest) with _ | _
        · rfl
        · obtain ⟨-, v, rest', hline, hv, -⟩ := head_of_afterNumber hnumber
          obtain ⟨rfl, -⟩ := List.cons.inj hline
          exact absurd hv (UInt16.not_le.2 hash_lt_digit)
      rcases hfollows : follows after with _ | t <;>
        simp [marker, hhashes, hbullet, hnumber, hfollows]

/-- With a carriage return at its end, a line has the same marker, followed by that too. -/
theorem marker_concat : marker (body ++ [Js.cr]) =
    (marker body).map fun x => (x.1, x.2 ++ [Js.cr]) := by
  have htake (p : UInt16 → Bool) (hp : p Js.cr = false) :
      (body ++ [Js.cr]).takeWhile p = body.takeWhile p := by
    rw [List.takeWhile_append]
    split_ifs with hlen
    · rw [List.takeWhile_cons, hp]
      have hall := (List.takeWhile_sublist p (l := body)).eq_of_length hlen
      simp [hall]
    · rfl
  have hdrop (p : UInt16 → Bool) : (body ++ [Js.cr]).drop (body.takeWhile p).length =
      body.drop (body.takeWhile p).length ++ [Js.cr] :=
    List.drop_append_of_le_length (List.takeWhile_sublist p).length_le
  have hhashes : afterHashes (body ++ [Js.cr]) =
      (afterHashes body).map fun x => (x.1, x.2 ++ [Js.cr]) := by
    unfold afterHashes
    simp only []
    rw [htake _ (by decide), hdrop]
    split_ifs <;> rfl
  have hbullet : afterBullet (body ++ [Js.cr]) = (afterBullet body).map fun x => x ++ [Js.cr] := by
    rcases body with _ | ⟨u, body⟩
    · decide
    · simp only [List.cons_append, afterBullet]
      split_ifs <;> rfl
  have hnumber : afterNumber (body ++ [Js.cr]) = (afterNumber body).map fun x => x ++ [Js.cr] := by
    unfold afterNumber
    simp only []
    rw [htake _ (by decide), hdrop]
    generalize (body.takeWhile _).length = digits
    rcases body.drop digits with _ | ⟨u, after⟩
    · have hne : Js.cr ≠ Js.unit '.' := by decide
      simp [hne]
    · simp only [List.cons_append]
      split_ifs <;> rfl
  unfold marker
  rw [hhashes, hbullet, hnumber]
  rcases afterHashes body with _ | x <;> rcases afterBullet body with _ | y <;>
    rcases afterNumber body with _ | z <;> rfl

/-- Every line is one without a carriage return, with one after it or not. -/
theorem exists_body (h : Js.cr ∉ line.dropLast) :
    ∃ body, Js.cr ∉ body ∧ (line = body ∨ line = body ++ [Js.cr]) := by
  by_cases hline : Js.cr ∈ line
  · have hne : line ≠ [] := List.ne_nil_of_mem hline
    have hsplit := List.dropLast_append_getLast hne
    refine ⟨line.dropLast, h, .inr ?_⟩
    rw [← hsplit] at hline
    rcases List.mem_append.1 hline with hline | hline
    · exact absurd hline h
    · rw [List.mem_singleton.1 hline, hsplit]
  · exact ⟨line, hline, .inl rfl⟩

theorem dropReturns_body (h : Js.cr ∉ body) : dropReturns body = body := by
  rw [dropReturns, List.filter_eq_self]
  intro u hu
  have hne : u ≠ Js.cr := fun heq => h (heq ▸ hu)
  simpa using hne

theorem dropReturns_concat (h : Js.cr ∉ body) : dropReturns (body ++ [Js.cr]) = body := by
  have hbody := dropReturns_body h
  unfold dropReturns at hbody ⊢
  rw [List.filter_append, hbody]
  simp

theorem isFence_concat : isFence (body ++ [Js.cr]) = isFence body := by
  unfold isFence
  rw [Js.trimEnd_concat (by decide)]

/-! ### Legible lines -/

/-- A heading or an item. -/
def Line.Marked : Line → Prop
  | heading _ _ | item _ _ => True
  | _ => False

/-- A heading or an item read as a plain line, or the other way round. -/
def Differ (l l' : Line) : Prop :=
  (∃ t, l = .plain t) ∧ l'.Marked ∨ l.Marked ∧ ∃ t, l' = .plain t

theorem digit_not_white {u : UInt16} (h : Js.unit '0' ≤ u ∧ u ≤ Js.unit '9') :
    Js.isWhiteSpace u = false := by
  by_contra hwhite
  rw [Bool.not_eq_false, Js.isWhiteSpace, Js.isLineTerminator, Bool.or_eq_true, decide_eq_true_eq,
    decide_eq_true_eq] at hwhite
  have hnone : ([(0x0a : UInt16), 0x0d, 0x2028, 0x2029] ++ [0x09, 0x0b, 0x0c, 0x20, 0xa0,
      0x1680, 0x2000, 0x2001, 0x2002, 0x2003, 0x2004, 0x2005, 0x2006, 0x2007, 0x2008, 0x2009,
      0x200a, 0x202f, 0x205f, 0x3000, 0xfeff]).all
      (fun v => ¬(Js.unit '0' ≤ v ∧ v ≤ Js.unit '9')) = true := by decide
  exact of_decide_eq_true (List.all_eq_true.1 hnone u (List.mem_append.2 hwhite)) h

theorem bullet_not_white :
    ∀ u ∈ [Js.unit '-', Js.unit '*', Js.unit '+'], Js.isWhiteSpace u = false := by
  simp only [List.mem_cons, List.not_mem_nil, or_false, forall_eq_or_imp, forall_eq]
  decide

theorem marker_eq_some {x : (Text → Line) × Text} (h : marker line = some x) :
    (∀ t, (x.1 t).Marked) ∧ x.2 <:+ line ∧
      ∃ u after, line = u :: after ∧ Js.isWhiteSpace u = false := by
  unfold marker at h
  rcases hhashes : afterHashes line with _ | ⟨level, after⟩ <;> rw [hhashes] at h
  · rcases hbullet : afterBullet line with _ | after <;> rw [hbullet] at h
    · rcases hnumber : afterNumber line with _ | after <;> rw [hnumber] at h
      · simp at h
      · obtain rfl := Option.some.inj h
        obtain ⟨hsuffix, u, after', hline, hu⟩ := head_of_afterNumber hnumber
        exact ⟨fun _ => trivial, hsuffix, u, after', hline, digit_not_white hu⟩
    · obtain rfl := Option.some.inj h
      obtain ⟨u, hu, rfl⟩ := head_of_afterBullet hbullet
      exact ⟨fun _ => trivial, List.suffix_cons u after, u, after, rfl, bullet_not_white u hu⟩
  · obtain rfl := Option.some.inj h
    obtain ⟨hsuffix, after', hline⟩ := head_of_afterHashes hhashes
    exact ⟨fun _ => trivial, hsuffix, _, after', hline, by decide⟩

theorem trim_ne_nil {u : UInt16} (h : Js.isWhiteSpace u = false) : Js.trim (u :: text) ≠ [] := by
  have hstart : Js.trimStart (u :: text) = u :: text := by
    rw [Js.trimStart, List.dropWhile_cons_of_neg (by simp [h])]
  rw [Js.trim, hstart, Js.trimEnd, Ne, List.rdropWhile_eq_nil_iff]
  intro hall
  have hu := hall u (by simp)
  simp [h] at hu

theorem spacedText_eq (h : rest.head?.any Js.isWhiteSpace = true →
    (Js.trimStart rest).any Js.isLineTerminator = false) : spacedText rest = spaced rest := by
  unfold spacedText spaced
  by_cases hwhite : rest.head?.any Js.isWhiteSpace = true
  · simp [hwhite, h hwhite]
  · simp [hwhite]

theorem spacedText_eq_none (h : (Js.trimStart rest).any Js.isLineTerminator = true) :
    spacedText rest = none := by
  unfold spacedText
  rw [h, Bool.not_true, Bool.and_false]
  rfl

theorem trimStart_concat_return
    (h : (Js.trimStart (rest ++ [Js.cr])).any Js.isLineTerminator = false) :
    Js.trimStart (rest ++ [Js.cr]) = [] ∧ Js.trimStart rest = [] := by
  unfold Js.trimStart at h ⊢
  rw [List.dropWhile_append] at h ⊢
  split_ifs at h ⊢ with hall
  · refine ⟨by decide, ?_⟩
    simpa using hall
  · simp [Js.isLineTerminator, Js.cr] at h

theorem head_concat_return (hne : rest ≠ []) :
    (rest ++ [Js.cr]).head?.any Js.isWhiteSpace = rest.head?.any Js.isWhiteSpace := by
  rcases rest with _ | ⟨u, rest⟩
  · exact absurd rfl hne
  · rfl

theorem spacedText_concat (hne : rest ≠ [])
    (h : (rest ++ [Js.cr]).head?.any Js.isWhiteSpace = true →
      (Js.trimStart (rest ++ [Js.cr])).any Js.isLineTerminator = false) :
    spacedText (rest ++ [Js.cr]) = spaced rest := by
  rw [spacedText_eq h]
  unfold spaced
  rw [head_concat_return hne] at h ⊢
  by_cases hwhite : rest.head?.any Js.isWhiteSpace = true
  · obtain ⟨hreturn, hrest⟩ := trimStart_concat_return (h hwhite)
    rw [if_pos hwhite, if_pos hwhite, hreturn, hrest]
  · rw [if_neg hwhite, if_neg hwhite]

/-- Where a line is legible, it is read as it should. -/
theorem read_of_legible (hline : Js.cr ∉ line.dropLast) (h : Legible line) :
    read spacedText line = read spaced (dropReturns line) := by
  obtain ⟨body, hbody, rfl | rfl⟩ := exists_body hline
  · rw [dropReturns_body hbody, read_eq, read_eq]
    rcases hmarker : marker line with _ | x
    · rfl
    · rw [Option.bind_some, Option.bind_some, spacedText_eq (h x hmarker).2]
  · rw [dropReturns_concat hbody, read_eq, read_eq, isFence_concat, Js.trim_concat (by decide),
      marker_concat]
    rcases hmarker : marker body with _ | x
    · rfl
    · have hlegible := h (x.1, x.2 ++ [Js.cr]) (by rw [marker_concat, hmarker]; rfl)
      have hne : x.2 ≠ [] := fun hnil => hlegible.1 (by rw [hnil]; rfl)
      rw [Option.map_some, Option.bind_some, Option.bind_some, spacedText_concat hne hlegible.2]

/-- Where it is not, it is not. -/
theorem differ_of_not_legible (hline : Js.cr ∉ line.dropLast) (hfence : isFence line = false)
    (h : ¬Legible line) : Differ (read spacedText line) (read spaced (dropReturns line)) := by
  simp only [Legible, not_forall] at h
  obtain ⟨x, hx, h⟩ := h
  obtain ⟨body, hbody, rfl | rfl⟩ := exists_body hline
  · obtain ⟨hmarked, hsuffix, u, after, hu, hwhite⟩ := marker_eq_some hx
    have hreturn : x.2 ≠ [Js.cr] := by
      intro heq
      rw [heq] at hsuffix
      exact hbody (hsuffix.subset (by simp))
    simp only [hreturn, ne_eq, not_false_eq_true, true_and, Classical.not_imp,
      Bool.not_eq_false] at h
    have hplain : Js.trim line ≠ [] := by
      rw [hu]
      exact trim_ne_nil hwhite
    rw [dropReturns_body hbody, read_eq, read_eq, hfence, hx]
    simp only [Option.bind_some, spacedText_eq_none h.2, spaced, h.1, if_true, hplain, if_false]
    exact .inl ⟨⟨_, rfl⟩, hmarked _⟩
  · have hx' : marker (body ++ [Js.cr]) = some x := hx
    rw [marker_concat, Option.map_eq_some_iff] at hx'
    obtain ⟨y, hy, rfl⟩ := hx'
    obtain ⟨hmarked, -, u, after, hu, hwhite⟩ := marker_eq_some hy
    have hplain : Js.trim body ≠ [] := by
      rw [hu]
      exact trim_ne_nil hwhite
    rw [dropReturns_concat hbody, read_eq, read_eq, hfence, ← isFence_concat, hfence, hx, hy,
      Js.trim_concat (by decide)]
    by_cases hnil : y.2 = []
    · have hreturn : spacedText [Js.cr] = some [] := by decide
      have hnone : spaced [] = none := rfl
      simp only [Option.bind_some, hnil, List.nil_append, hreturn, hnone, hplain, if_false]
      exact .inr ⟨hmarked _, _, rfl⟩
    · have hreturn : y.2 ++ [Js.cr] ≠ [Js.cr] := fun heq => hnil (by simpa using heq)
      simp only [hreturn, ne_eq, not_false_eq_true, true_and, Classical.not_imp,
        Bool.not_eq_false, head_concat_return hnil] at h
      simp only [Option.bind_some, spacedText_eq_none h.2, spaced, h.1, if_true, hplain, if_false]
      exact .inl ⟨⟨_, rfl⟩, hmarked _⟩

/-! ### The blocks -/

theorem resume_ne_of_plain {p : Pending} {t : Text} {l : Line} {x y : Text}
    {xs ys : List (Line × Text)} (hp : p.Filled) (hl : l.Marked) :
    resume p ((.plain t, x) :: xs) ≠ resume p ((l, y) :: ys) := by
  have hgroup : group ((.plain t, x) :: xs) ≠ group ((l, y) :: ys) := by
    cases l with
    | heading level text => simp [group]
    | item ordered text => simp [group]
    | _ => exact hl.elim
  cases p with
  | nothing => exact hgroup
  | paragraph opened =>
    intro heq
    have hrun : run Line.plain? ((l, y) :: ys) = ([], (l, y) :: ys) := by
      cases l <;> first | exact hl.elim | rfl
    simp only [resume, hrun, List.append_nil, List.cons.injEq, MdBlock.paragraph.injEq] at heq
    exact Js.join_ne_join_append hp (by simp [run, Line.plain?]) heq.1.symm
  | list ordered items =>
    have hrun : run (Line.item? ordered) ((.plain t, x) :: xs) = ([], (.plain t, x) :: xs) := rfl
    intro heq
    simp only [resume, hrun, List.append_nil, List.cons.injEq, MdBlock.list.injEq, true_and] at heq
    obtain ⟨hitems, hrest⟩ := heq
    rcases hfirst : run (Line.item? ordered) ((l, y) :: ys) with ⟨run', rest'⟩
    rw [hfirst] at hitems hrest
    obtain rfl : run' = [] := by simpa using hitems
    have hrest' : rest' = (l, y) :: ys := by
      unfold run at hfirst
      split at hfirst
      · simp at hfirst
      · exact (Prod.mk.inj hfirst).2.symm
    rw [hrest'] at hrest
    exact hgroup hrest

theorem resume_ne {p : Pending} {x y : Line × Text} {xs ys : List (Line × Text)} (hp : p.Filled)
    (h : Differ x.1 y.1) : resume p (x :: xs) ≠ resume p (y :: ys) := by
  obtain ⟨l, x⟩ := x
  obtain ⟨l', y⟩ := y
  obtain ⟨⟨t, rfl⟩, hl⟩ | ⟨hl, t, rfl⟩ := h
  · exact resume_ne_of_plain hp hl
  · exact (resume_ne_of_plain hp hl).symm

theorem isFence_dropReturns (hline : Js.cr ∉ line.dropLast) :
    isFence (dropReturns line) = isFence line := by
  obtain ⟨body, hbody, rfl | rfl⟩ := exists_body hline
  · rw [dropReturns_body hbody]
  · rw [dropReturns_concat hbody, isFence_concat]

/-- In a fence, what counts is that no line up to the next one has a carriage return. -/
theorem allLegible_inside : AllLegible true lines ↔
    (∀ line ∈ (fenced lines).1, Js.cr ∉ line) ∧ AllLegible false (fenced lines).2 := by
  induction lines with
  | nil => simp [AllLegible, fenced]
  | cons line rest ih =>
    rw [AllLegible, fenced]
    by_cases h : isFence line = true
    · rw [if_pos h, if_pos h]
      simp
    · rw [if_neg h, if_neg h, if_pos rfl, ih, List.forall_mem_cons, and_assoc]

theorem fenced_dropReturns (h : ∀ line ∈ lines, Js.cr ∉ line.dropLast) :
    fenced (lines.map dropReturns) =
      ((fenced lines).1.map dropReturns, (fenced lines).2.map dropReturns) := by
  induction lines with
  | nil => rfl
  | cons line rest ih =>
    have hrest := ih fun l hl => h l (by simp [hl])
    rw [List.map_cons, fenced, fenced, isFence_dropReturns (h line (by simp)), hrest]
    split_ifs <;> rfl

theorem fenced_subset : (fenced lines).1 ⊆ lines ∧ (fenced lines).2 ⊆ lines := by
  induction lines with
  | nil => exact ⟨List.Subset.refl _, List.Subset.refl _⟩
  | cons line rest ih =>
    unfold fenced
    split_ifs
    · exact ⟨List.nil_subset _, List.subset_cons_self _ _⟩
    · exact ⟨List.cons_subset_cons _ ih.1, List.subset_cons_of_subset _ ih.2⟩

theorem dropReturns_eq_self : dropReturns text = text ↔ Js.cr ∉ text := by
  refine ⟨fun h => ?_, dropReturns_body⟩
  rw [← h]
  simp [dropReturns]

/-- The lines of a fence are joined to the same text only where they have no carriage return. -/
theorem join_dropReturns_iff (hlf : ∀ line ∈ lines, Js.lf ∉ line) :
    Js.join lines newline = Js.join (lines.map dropReturns) newline ↔
      ∀ line ∈ lines, Js.cr ∉ line := by
  constructor
  · intro h line hline
    have hlf' : ∀ line ∈ lines.map dropReturns, Js.lf ∉ line := by
      intro l hl
      obtain ⟨l', hl', rfl⟩ := List.mem_map.1 hl
      exact fun hmem => hlf l' hl' (List.mem_of_mem_filter hmem)
    have hsame := Js.join_inj (by simp) hlf hlf' h
    have hself : lines.map dropReturns = lines.map id := by rw [← hsame, List.map_id]
    exact dropReturns_eq_self.1 (List.map_inj_left.1 hself line hline)
  · intro h
    have hself : lines.map dropReturns = lines := by
      refine (List.map_congr_left fun line hline => ?_).trans (List.map_id _)
      exact dropReturns_body (h line hline)
    rw [hself]

/-- What is read as it should makes the blocks it should, and nothing else does. -/
theorem resume_eq_iff {p : Pending} (hp : p.Filled)
    (hreturns : ∀ line ∈ lines, Js.cr ∉ line.dropLast) (hlf : ∀ line ∈ lines, Js.lf ∉ line) :
    resume p (readLines spacedText lines) = resume p (readLines spaced (lines.map dropReturns)) ↔
      AllLegible false lines := by
  induction hn : lines.length using Nat.strong_induction_on generalizing lines p with
  | _ n ih =>
    rcases lines with _ | ⟨line, rest⟩
    · simp [readLines, AllLegible]
    · subst hn
      have hline := hreturns line (by simp)
      have hcons : readLines spacedText (line :: rest) =
          (read spacedText line, line) :: readLines spacedText rest := rfl
      have hcons' : readLines spaced ((line :: rest).map dropReturns) =
          (read spaced (dropReturns line), dropReturns line) ::
            readLines spaced (rest.map dropReturns) := rfl
      rw [hcons, hcons', AllLegible]
      by_cases hfence : isFence line = true
      · have hfence' : isFence (dropReturns line) = true := by rw [isFence_dropReturns hline, hfence]
        have hlength := length_fenced rest
        have hrest := @ih (fenced rest).2.length (by rw [List.length_cons]; omega)
          (fenced rest).2 .nothing trivial
          (fun l hl => hreturns l (List.mem_cons_of_mem _ (fenced_subset.2 hl)))
          (fun l hl => hlf l (List.mem_cons_of_mem _ (fenced_subset.2 hl))) rfl
        rw [if_pos hfence, Bool.not_false, allLegible_inside, read_eq_fence.2 hfence,
          read_eq_fence.2 hfence', resume_fence, resume_fence, upToFence_readLines.1,
          upToFence_readLines.2, upToFence_readLines.1, upToFence_readLines.2,
          fenced_dropReturns fun l hl => hreturns l (by simp [hl]), List.append_cancel_left_eq,
          List.cons.injEq, MdBlock.code.injEq, ← hrest, join_dropReturns_iff]
        · rfl
        · exact fun l hl => hlf l (List.mem_cons_of_mem _ (fenced_subset.1 hl))
      · rw [if_neg hfence, if_neg Bool.false_ne_true]
        by_cases hlegible : Legible line
        · have hread := read_of_legible hline hlegible
          have hne : read spacedText line ≠ .fence := fun h => hfence (read_eq_fence.1 h)
          have hrest := @ih rest.length (by simp) rest _ (advance_spec hne hp).1
            (fun l hl => hreturns l (by simp [hl])) (fun l hl => hlf l (by simp [hl])) rfl
          rw [resume_cons hne, resume_cons (hread ▸ hne), ← hread, List.append_cancel_left_eq, hrest]
          exact (and_iff_right hlegible).symm
        · have hdiffer := differ_of_not_legible hline (by simpa using hfence) hlegible
          exact iff_of_false (resume_ne hp hdiffer) fun h => hlegible h.1

/-! ### The preview -/

/-- Line ends are at the ends of lines. -/
theorem notMem_dropLast_of_lineEnds (h : LineEnds md) (hline : line ∈ Js.split md Js.lf) :
    Js.cr ∉ line.dropLast := by
  induction md generalizing line with
  | nil =>
    obtain rfl := List.mem_singleton.1 hline
    simp
  | cons u md ih =>
    have hrest : LineEnds md := h.of_cons
    rw [Js.split_cons] at hline
    split_ifs at hline with hu
    · rcases List.mem_cons.1 hline with rfl | hline
      · simp
      · exact ih hrest hline
    · obtain ⟨l, ls, hsplit⟩ := Js.exists_split md Js.lf
      rw [hsplit, List.modifyHead_cons] at hline
      rcases List.mem_cons.1 hline with rfl | hline
      · rcases l with _ | ⟨v, l⟩
        · simp
        · have hfirst : ∃ md', md = v :: md' ∧ v ≠ Js.lf := by
            rcases md with _ | ⟨w, md⟩
            · simp [Js.split] at hsplit
            · rw [Js.split_cons] at hsplit
              split_ifs at hsplit with hw
              · simp at hsplit
              · obtain ⟨l', ls', hsplit'⟩ := Js.exists_split md Js.lf
                rw [hsplit', List.modifyHead_cons] at hsplit
                obtain ⟨hhead, -⟩ := List.cons.inj hsplit
                obtain ⟨rfl, -⟩ := List.cons.inj hhead
                exact ⟨md, rfl, hw⟩
          obtain ⟨md', rfl, hv⟩ := hfirst
          have hu' : u ≠ Js.cr := fun hcr => hv (h.rel hcr)
          have hl : Js.cr ∉ (v :: l).dropLast := ih hrest (by rw [hsplit]; simp)
          rw [List.dropLast_cons_of_ne_nil (List.cons_ne_nil v l), List.mem_cons, not_or]
          exact ⟨hu'.symm, hl⟩
      · exact ih hrest (by rw [hsplit]; simp [hline])

theorem parseMarkdown_eq : parseMarkdown md =
    resume .nothing (readLines spacedText (Js.split md Js.lf)) :=
  parseLines_eq (s := ⟨[], [], none⟩) (p := .nothing) ⟨rfl, rfl⟩

/-- A preview is the documented one exactly where its lines are legible. -/
theorem previewed_iff (h : LineEnds md) :
    Previewed md ↔ AllLegible false (Js.split md Js.lf) := by
  have hlines : Js.split (dropReturns md) Js.lf = (Js.split md Js.lf).map dropReturns :=
    Js.split_filter (by decide)
  have hdocumented : documented (dropReturns md) =
      resume .nothing (readLines spaced ((Js.split md Js.lf).map dropReturns)) := by
    rw [documented, hlines]
    rfl
  rw [← resume_eq_iff (p := .nothing) trivial (fun _ hl => notMem_dropLast_of_lineEnds h hl)
    fun _ hl => Js.notMem_of_mem_split hl, ← hdocumented, ← parseMarkdown_eq]
  refine ⟨Previewed.follows, fun hfollows => ⟨hfollows, ?_⟩⟩
  rw [hfollows]
  exact shows_resume (p := .nothing) trivial

/-- A document with LF or CRLF line ends is previewed as documented, every line of it in a block,
exactly where its lines are legible; and the nodes of any text spell it. -/
theorem preview_drops_nothing_iff (md text : Text) (h : LineEnds md) :
    Previewed md ∧ Spelled (renderInline text) text ↔ AllLegible false (Js.split md Js.lf) :=
  ⟨fun hkept => (previewed_iff h).1 hkept.1,
    fun hlegible => ⟨(previewed_iff h).2 hlegible, spelled_renderInline⟩⟩

/-- `# T` and `- a`, each with a line feed. -/
def shortNote : Text :=
  [Js.unit '#', Js.unit ' ', Js.unit 'T', Js.lf, Js.unit '-', Js.unit ' ', Js.unit 'a', Js.lf]

theorem shortNote_previewed :
    Previewed shortNote ∧ Spelled (renderInline shortNote) shortNote :=
  (preview_drops_nothing_iff shortNote shortNote (by decide)).2 (by decide)

/-- `# T` with CRLF, which is previewed as a paragraph. -/
def returnedHeading : Text := [Js.unit '#', Js.unit ' ', Js.unit 'T', Js.cr, Js.lf]

theorem returnedHeading_not_previewed :
    LineEnds returnedHeading ∧ ¬Previewed returnedHeading :=
  ⟨by decide, fun h => absurd ((previewed_iff (by decide)).1 h) (by decide)⟩

end Markdown

end BuilderPro
