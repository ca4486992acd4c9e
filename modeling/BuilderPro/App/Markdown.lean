import BuilderPro.Lib.JsString
import Mathlib.Data.List.Forall2

/-!
# The blocks of a document

`parseMarkdown` goes over the lines of a document once, with the lines of the paragraph and the items
of the list that are still open.  Where it reads each line as its documentation says, the blocks are
the documented ones, and every line is in one of them (`resume_eq`, `shows_resume`).
-/

namespace BuilderPro

open Js (Text)

namespace Markdown

inductive MdBlock
  | heading (level : ℕ) (text : Text)
  | paragraph (text : Text)
  | list (ordered : Bool) (items : List Text)
  | code (text : Text)
  deriving DecidableEq

/-- What separates the lines of a paragraph. -/
def blank : Text := [Js.unit ' ']

def newline : Text := [Js.lf]

def fence : Text := List.replicate 3 (Js.unit (Char.ofNat 0x60))

def isFence (line : Text) : Bool := Js.startsWith (Js.trimEnd line) fence

/-- What follows `#{1,6}`, with the level. -/
def afterHashes (line : Text) : Option (ℕ × Text) :=
  let level := (line.takeWhile (· = Js.unit '#')).length
  if 1 ≤ level ∧ level ≤ 6 then some (level, line.drop level) else none

/-- What follows `[-*+]`. -/
def afterBullet : Text → Option Text
  | [] => none
  | u :: rest => if u ∈ [Js.unit '-', Js.unit '*', Js.unit '+'] then some rest else none

/-- What follows `\d+\.`. -/
def afterNumber (line : Text) : Option Text :=
  let digits := (line.takeWhile fun u => Js.unit '0' ≤ u && u ≤ Js.unit '9').length
  match line.drop digits with
  | [] => none
  | u :: rest => if 1 ≤ digits ∧ u = Js.unit '.' then some rest else none

/-- The group of `\s+(.*)$`, which is what white space leaves.  As `.` matches no line terminator and
`$` only the end, where one is left there is no match. -/
def spacedText (rest : Text) : Option Text :=
  if (rest.head?.any Js.isWhiteSpace && !(Js.trimStart rest).any Js.isLineTerminator) then
    some (Js.trimStart rest)
  else none

/-- `HEADING_RE`, with the length of its first group. -/
def headingRe (line : Text) : Option (ℕ × Text) :=
  (afterHashes line).bind fun x => (spacedText x.2).map fun t => (x.1, t)

/-- `UNORDERED_ITEM_RE`. -/
def unorderedItemRe (line : Text) : Option Text := (afterBullet line).bind spacedText

/-- `ORDERED_ITEM_RE`. -/
def orderedItemRe (line : Text) : Option Text := (afterNumber line).bind spacedText

/-- The blocks so far, and what is open. -/
structure Parse where
  blocks : List MdBlock
  paragraph : List Text
  list : Option (Bool × List Text)

def Parse.push (s : Parse) (block : MdBlock) : Parse := { s with blocks := s.blocks ++ [block] }

def flushParagraph (s : Parse) : Parse :=
  if s.paragraph.length > 0 then
    { s.push (.paragraph (Js.join s.paragraph blank)) with paragraph := [] }
  else s

def flushList (s : Parse) : Parse :=
  match s.list with
  | some (ordered, items) => { s.push (.list ordered items) with list := none }
  | none => s

def flush (s : Parse) : Parse := flushList (flushParagraph s)

/-- The lines up to the closing fence, and those past it. -/
def fenced : List Text → List Text × List Text
  | [] => ([], [])
  | line :: rest => if isFence line then ([], rest) else (line :: (fenced rest).1, (fenced rest).2)

theorem length_fenced (lines : List Text) : (fenced lines).2.length ≤ lines.length := by
  induction lines with
  | nil => exact le_rfl
  | cons line rest ih =>
    unfold fenced
    split_ifs
    · simp
    · simpa using ih.trans (Nat.le_succ _)

def pushItem (ordered : Bool) (item : Text) (s : Parse) : Parse :=
  let s := flushParagraph s
  match s.list with
  | some (o, items) =>
    if o = ordered then { s with list := some (o, items ++ [item]) }
    else { flushList s with list := some (ordered, [item]) }
  | none => { s with list := some (ordered, [item]) }

def parseLines (lines : List Text) (s : Parse) : Parse :=
  match lines with
  | [] => s
  | line :: rest =>
    if isFence line then
      parseLines (fenced rest).2 ((flush s).push (.code (Js.join (fenced rest).1 newline)))
    else match headingRe line with
      | some (level, text) => parseLines rest ((flush s).push (.heading level (Js.trim text)))
      | none => match unorderedItemRe line with
        | some text => parseLines rest (pushItem false (Js.trim text) s)
        | none => match orderedItemRe line with
          | some text => parseLines rest (pushItem true (Js.trim text) s)
          | none =>
            if Js.trim line = [] then parseLines rest (flush s)
            else
              let s := flushList s
              parseLines rest { s with paragraph := s.paragraph ++ [Js.trim line] }
termination_by lines.length
decreasing_by all_goals have h := length_fenced rest; simp only [List.length_cons]; omega

def parseMarkdown (md : Text) : List MdBlock :=
  (flush (parseLines (Js.split md Js.lf) ⟨[], [], none⟩)).blocks

/-! ### What the lines are -/

/-- A line, as it is read. -/
inductive Line
  | fence
  | heading (level : ℕ) (text : Text)
  | item (ordered : Bool) (text : Text)
  | blank
  | plain (text : Text)
  deriving DecidableEq

/-- How a line is read, by what may follow a marker. -/
def read (follows : Text → Option Text) (line : Text) : Line :=
  if isFence line then .fence
  else match (afterHashes line).bind fun x => (follows x.2).map fun t => (x.1, t) with
    | some (level, text) => .heading level (Js.trim text)
    | none => match (afterBullet line).bind follows with
      | some text => .item false (Js.trim text)
      | none => match (afterNumber line).bind follows with
        | some text => .item true (Js.trim text)
        | none => if Js.trim line = [] then .blank else .plain (Js.trim line)

/-- What may follow a marker by the documentation: a space, and then anything. -/
def spaced (rest : Text) : Option Text :=
  if rest.head?.any Js.isWhiteSpace then some (Js.trimStart rest) else none

/-- The lines with how they are read. -/
def readLines (follows : Text → Option Text) (lines : List Text) : List (Line × Text) :=
  lines.map fun line => (read follows line, line)

def Line.plain? : Line → Option Text
  | plain text => some text
  | _ => none

def Line.item? (ordered : Bool) : Line → Option Text
  | item o text => if o = ordered then some text else none
  | _ => none

/-- The longest run of lines of a kind, and what is past it. -/
def run (kind : Line → Option Text) : List (Line × Text) → List Text × List (Line × Text)
  | [] => ([], [])
  | x :: rest => match kind x.1 with
    | some text => (text :: (run kind rest).1, (run kind rest).2)
    | none => ([], x :: rest)

/-- The lines before the next fence, and those past it. -/
def upToFence : List (Line × Text) → List Text × List (Line × Text)
  | [] => ([], [])
  | (.fence, _) :: rest => ([], rest)
  | (_, line) :: rest => (line :: (upToFence rest).1, (upToFence rest).2)

theorem length_run (kind : Line → Option Text) (lines : List (Line × Text)) :
    (run kind lines).2.length ≤ lines.length := by
  induction lines with
  | nil => exact le_rfl
  | cons x rest ih =>
    unfold run
    split
    · simpa using ih.trans (Nat.le_succ _)
    · exact le_rfl

theorem length_upToFence (lines : List (Line × Text)) :
    (upToFence lines).2.length ≤ lines.length := by
  induction lines with
  | nil => exact le_rfl
  | cons x rest ih =>
    obtain ⟨line, text⟩ := x
    cases line <;> simp only [upToFence, List.length_cons] <;> omega

/-- The documented blocks: a fence takes the lines up to the next one as they are; consecutive items
of a kind are a list, and consecutive plain lines a paragraph; a blank line is none of these. -/
def group (lines : List (Line × Text)) : List MdBlock :=
  match lines with
  | [] => []
  | (.fence, _) :: rest =>
    .code (Js.join (upToFence rest).1 newline) :: group (upToFence rest).2
  | (.heading level text, _) :: rest => .heading level text :: group rest
  | (.item ordered text, _) :: rest =>
    .list ordered (text :: (run (Line.item? ordered) rest).1) ::
      group (run (Line.item? ordered) rest).2
  | (.blank, _) :: rest => group rest
  | (.plain text, _) :: rest =>
    .paragraph (Js.join (text :: (run Line.plain? rest).1) blank) :: group (run Line.plain? rest).2
termination_by lines.length
decreasing_by
  all_goals simp only [List.length_cons]
  · have h := length_upToFence rest
    omega
  · omega
  · have h := length_run (Line.item? ordered) rest
    omega
  · omega
  · have h := length_run Line.plain? rest
    omega

/-- The blocks of a text by the documentation. -/
def documented (md : Text) : List MdBlock := group (readLines spaced (Js.split md Js.lf))

/-! ### One line at a time -/

/-- What is open between two lines. -/
inductive Pending
  | nothing
  | paragraph (lines : List Text)
  | list (ordered : Bool) (items : List Text)

def Pending.close : Pending → List MdBlock
  | nothing => []
  | paragraph lines => [.paragraph (Js.join lines blank)]
  | list ordered items => [.list ordered items]

/-- The blocks of what is open and what follows it. -/
def resume : Pending → List (Line × Text) → List MdBlock
  | .nothing, lines => group lines
  | .paragraph open_, lines =>
    .paragraph (Js.join (open_ ++ (run Line.plain? lines).1) blank) ::
      group (run Line.plain? lines).2
  | .list ordered items, lines =>
    .list ordered (items ++ (run (Line.item? ordered) lines).1) ::
      group (run (Line.item? ordered) lines).2

/-- The blocks a line closes, and what is open after it. -/
def advance (p : Pending) : Line → List MdBlock × Pending
  | .fence => (p.close, .nothing)
  | .heading level text => (p.close ++ [.heading level text], .nothing)
  | .item ordered text => match p with
    | .list o items =>
      if o = ordered then ([], .list o (items ++ [text])) else (p.close, .list ordered [text])
    | _ => (p.close, .list ordered [text])
  | .blank => (p.close, .nothing)
  | .plain text => match p with
    | .paragraph lines => ([], .paragraph (lines ++ [text]))
    | _ => (p.close, .paragraph [text])

variable {p : Pending} {x : Line × Text} {line text : Text} {rest : List (Line × Text)}
  {follows : Text → Option Text} {s : Parse} {lines : List Text}

theorem resume_nil : resume p [] = p.close := by
  cases p <;> simp [resume, run, group, Pending.close]

theorem resume_fence : resume p ((.fence, line) :: rest) = p.close ++
    .code (Js.join (upToFence rest).1 newline) :: group (upToFence rest).2 := by
  cases p <;> simp [resume, run, Line.plain?, Line.item?, group, Pending.close]

theorem resume_cons (hx : x.1 ≠ .fence) :
    resume p (x :: rest) = (advance p x.1).1 ++ resume (advance p x.1).2 rest := by
  obtain ⟨l, line⟩ := x
  rcases p with _ | _ | ⟨o, items⟩
  · cases l with
    | fence => exact absurd rfl hx
    | _ => simp [resume, advance, Pending.close, group]
  · cases l with
    | fence => exact absurd rfl hx
    | _ => simp [resume, advance, Pending.close, group, run, Line.plain?]
  · cases l with
    | fence => exact absurd rfl hx
    | item ordered text =>
      by_cases ho : o = ordered
      · subst ho
        simp [resume, advance, run, Line.item?]
      · simp [resume, advance, Pending.close, group, run, Line.item?, ho, Ne.symm ho]
    | _ => simp [resume, advance, Pending.close, group, run, Line.item?]

/-! ### What the parser does -/

/-- What is open in the parser. -/
def Parse.Holds (s : Parse) : Pending → Prop
  | .nothing => s.paragraph = [] ∧ s.list = none
  | .paragraph lines => lines ≠ [] ∧ s.paragraph = lines ∧ s.list = none
  | .list ordered items => s.paragraph = [] ∧ s.list = some (ordered, items)

/-- What the parser does with a line that is no fence. -/
def parseLine (s : Parse) : Line → Parse
  | .fence => s
  | .heading level text => (flush s).push (.heading level text)
  | .item ordered text => pushItem ordered text s
  | .blank => flush s
  | .plain text => { flushList s with paragraph := (flushList s).paragraph ++ [text] }

theorem parseLines_nil : parseLines [] s = s := by
  rw [parseLines]

theorem parseLines_fence (h : isFence line = true) : parseLines (line :: lines) s =
    parseLines (fenced lines).2 ((flush s).push (.code (Js.join (fenced lines).1 newline))) := by
  rw [parseLines, if_pos h]

theorem parseLines_cons (h : isFence line = false) :
    parseLines (line :: lines) s = parseLines lines (parseLine s (read spacedText line)) := by
  have hfence : ¬isFence line = true := by simp [h]
  rw [parseLines, if_neg hfence]
  unfold read
  rw [if_neg hfence]
  rcases hheading : headingRe line with _ | ⟨level, text⟩
  · rw [show ((afterHashes line).bind fun x => (spacedText x.2).map fun t => (x.1, t)) = none
      from hheading]
    rcases hbullet : unorderedItemRe line with _ | text
    · rw [show (afterBullet line).bind spacedText = none from hbullet]
      rcases hnumber : orderedItemRe line with _ | text
      · rw [show (afterNumber line).bind spacedText = none from hnumber]
        simp only []
        split_ifs <;> rfl
      · rw [show (afterNumber line).bind spacedText = some text from hnumber]
        rfl
    · rw [show (afterBullet line).bind spacedText = some text from hbullet]
      rfl
  · rw [show ((afterHashes line).bind fun x => (spacedText x.2).map fun t => (x.1, t)) =
      some (level, text) from hheading]
    rfl

theorem flush_holds (h : s.Holds p) :
    (flush s).Holds .nothing ∧ (flush s).blocks = s.blocks ++ p.close := by
  obtain ⟨blocks, paragraph, list⟩ := s
  rcases p with _ | _ | _
  · obtain ⟨rfl, rfl⟩ := h
    simp [flush, flushParagraph, flushList, Parse.Holds, Pending.close]
  · obtain ⟨hne, rfl, rfl⟩ := h
    simp [flush, flushParagraph, flushList, Parse.Holds, Pending.close, Parse.push,
      List.length_pos_iff.2 hne]
  · obtain ⟨rfl, rfl⟩ := h
    simp [flush, flushParagraph, flushList, Parse.Holds, Pending.close, Parse.push]

theorem push_holds {block : MdBlock} (h : s.Holds p) : (s.push block).Holds p := by
  cases p <;> exact h

theorem parseLine_holds {l : Line} (hl : l ≠ .fence) (h : s.Holds p) :
    (parseLine s l).Holds (advance p l).2 ∧
      (parseLine s l).blocks = s.blocks ++ (advance p l).1 := by
  cases l with
  | fence => exact absurd rfl hl
  | heading level text =>
    obtain ⟨hflush, hblocks⟩ := flush_holds h
    refine ⟨push_holds hflush, ?_⟩
    show (flush s).blocks ++ _ = _
    rw [hblocks, List.append_assoc]
    rfl
  | blank => exact flush_holds h
  | item ordered text =>
    obtain ⟨blocks, paragraph, list⟩ := s
    rcases p with _ | _ | ⟨o, items⟩
    · obtain ⟨rfl, rfl⟩ := h
      simp [parseLine, pushItem, flushParagraph, advance, Parse.Holds, Pending.close]
    · obtain ⟨hne, rfl, rfl⟩ := h
      simp [parseLine, pushItem, flushParagraph, advance, Parse.Holds, Pending.close, Parse.push,
        List.length_pos_iff.2 hne]
    · obtain ⟨rfl, rfl⟩ := h
      by_cases ho : o = ordered <;> simp [parseLine, pushItem, flushParagraph, flushList, advance,
        Parse.Holds, Pending.close, Parse.push, ho]
  | plain text =>
    obtain ⟨blocks, paragraph, list⟩ := s
    rcases p with _ | _ | ⟨o, items⟩
    · obtain ⟨rfl, rfl⟩ := h
      simp [parseLine, flushList, advance, Parse.Holds, Pending.close]
    · obtain ⟨hne, rfl, rfl⟩ := h
      simp [parseLine, flushList, advance, Parse.Holds]
    · obtain ⟨rfl, rfl⟩ := h
      simp [parseLine, flushList, advance, Parse.Holds, Pending.close, Parse.push]

theorem read_eq_fence : read follows line = .fence ↔ isFence line = true := by
  unfold read
  by_cases h : isFence line = true
  · rw [if_pos h]
    exact ⟨fun _ => h, fun _ => rfl⟩
  · rw [if_neg h]
    refine ⟨fun hread => ?_, fun hfence => absurd hfence h⟩
    split at hread
    · simp at hread
    · split at hread
      · simp at hread
      · split at hread
        · simp at hread
        · split_ifs at hread

/-- The inner loop takes the lines up to the next fence. -/
theorem upToFence_readLines : (upToFence (readLines follows lines)).1 = (fenced lines).1 ∧
    (upToFence (readLines follows lines)).2 = readLines follows (fenced lines).2 := by
  induction lines with
  | nil => exact ⟨rfl, rfl⟩
  | cons line rest ih =>
    have hcons : readLines follows (line :: rest) =
        (read follows line, line) :: readLines follows rest := rfl
    rw [hcons, fenced]
    by_cases h : isFence line = true
    · rw [if_pos h, read_eq_fence.2 h]
      exact ⟨rfl, rfl⟩
    · rw [if_neg h]
      have hline : read follows line ≠ .fence := fun hread => h (read_eq_fence.1 hread)
      rw [upToFence.eq_3 _ _ _ hline]
      exact ⟨congrArg (List.cons line) ih.1, ih.2⟩

/-- The parser groups the lines as it reads them. -/
theorem parseLines_eq (h : s.Holds p) : (flush (parseLines lines s)).blocks =
    s.blocks ++ resume p (readLines spacedText lines) := by
  induction hn : lines.length using Nat.strong_induction_on generalizing lines s p with
  | _ n ih =>
    rcases lines with _ | ⟨line, rest⟩
    · rw [parseLines_nil, (flush_holds h).2]
      exact congrArg _ resume_nil.symm
    · subst hn
      have hcons : readLines spacedText (line :: rest) =
          (read spacedText line, line) :: readLines spacedText rest := rfl
      rw [hcons]
      by_cases hfence : isFence line = true
      · obtain ⟨hflush, hblocks⟩ := flush_holds h
        have hlength := length_fenced rest
        rw [parseLines_fence hfence, ih _ (by rw [List.length_cons]; omega) (push_holds hflush) rfl,
          read_eq_fence.2 hfence, resume_fence, upToFence_readLines.1, upToFence_readLines.2]
        show (flush s).blocks ++ [_] ++ group _ = _
        rw [hblocks, List.append_assoc, List.append_assoc]
        rfl
      · have hline : read spacedText line ≠ .fence := fun hread => hfence (read_eq_fence.1 hread)
        obtain ⟨hholds, hblocks⟩ := parseLine_holds hline h
        rw [parseLines_cons (by simpa using hfence), ih _ (by simp) hholds rfl, hblocks,
          resume_cons hline, List.append_assoc]

/-! ### Every line in one block -/

/-- What a line adds to a document. -/
inductive Content
  | heading (level : ℕ) (text : Text)
  | item (ordered : Bool) (text : Text)
  | plain (text : Text)
  | code (line : Text)

/-- What the lines add, inside a fence or outside of one: a fence and a blank line add nothing. -/
def contributions : Bool → List (Line × Text) → List Content
  | _, [] => []
  | inside, (.fence, _) :: rest => contributions (!inside) rest
  | true, (_, line) :: rest => .code line :: contributions true rest
  | false, (.heading level text, _) :: rest => .heading level text :: contributions false rest
  | false, (.item ordered text, _) :: rest => .item ordered text :: contributions false rest
  | false, (.blank, _) :: rest => contributions false rest
  | false, (.plain text, _) :: rest => .plain text :: contributions false rest

/-- What a block shows: items of one kind, or the lines of one paragraph or fence. -/
inductive Shows : List Content → MdBlock → Prop
  | heading (level : ℕ) (text : Text) : Shows [.heading level text] (.heading level text)
  | paragraph (lines : List Text) (h : lines ≠ []) :
    Shows (lines.map .plain) (.paragraph (Js.join lines blank))
  | list (ordered : Bool) (items : List Text) (h : items ≠ []) :
    Shows (items.map (.item ordered)) (.list ordered items)
  | code (lines : List Text) : Shows (lines.map .code) (.code (Js.join lines newline))

/-- Blocks that show some contents, each in one of them and in order. -/
def ShowAll (contents : List Content) (blocks : List MdBlock) : Prop :=
  ∃ groups, List.Forall₂ Shows groups blocks ∧ groups.flatten = contents

def Pending.contents : Pending → List Content
  | nothing => []
  | paragraph lines => lines.map .plain
  | list ordered items => items.map (.item ordered)

/-- What is open is not empty. -/
def Pending.Filled : Pending → Prop
  | nothing => True
  | paragraph lines => lines ≠ []
  | list _ items => items ≠ []

def Line.content : Line → List Content
  | fence => []
  | heading level text => [.heading level text]
  | item ordered text => [.item ordered text]
  | blank => []
  | plain text => [.plain text]

theorem ShowAll.append {c c' : List Content} {b b' : List MdBlock} (h : ShowAll c b)
    (h' : ShowAll c' b') : ShowAll (c ++ c') (b ++ b') := by
  obtain ⟨g, hg, rfl⟩ := h
  obtain ⟨g', hg', rfl⟩ := h'
  exact ⟨g ++ g', List.rel_append hg hg', List.flatten_append⟩

theorem Shows.showAll {c : List Content} {b : MdBlock} (h : Shows c b) : ShowAll c [b] :=
  ⟨[c], .cons h .nil, by simp⟩

theorem showAll_close (h : p.Filled) : ShowAll p.contents p.close := by
  cases p with
  | nothing => exact ⟨[], .nil, rfl⟩
  | paragraph lines => exact (Shows.paragraph lines h).showAll
  | list ordered items => exact (Shows.list ordered items h).showAll

theorem advance_spec {l : Line} (hl : l ≠ .fence) (h : p.Filled) : (advance p l).2.Filled ∧
    ∃ c, ShowAll c (advance p l).1 ∧ c ++ (advance p l).2.contents = p.contents ++ l.content := by
  have hclose := showAll_close h
  have hnone : ShowAll [] [] := ⟨[], .nil, rfl⟩
  cases l with
  | fence => exact absurd rfl hl
  | heading level text =>
    refine ⟨trivial, _, hclose.append (Shows.heading level text).showAll, ?_⟩
    simp [advance, Pending.contents, Line.content]
  | blank => exact ⟨trivial, _, hclose, rfl⟩
  | item ordered text =>
    rcases p with _ | _ | ⟨o, items⟩
    · exact ⟨List.cons_ne_nil _ _, _, hclose, rfl⟩
    · exact ⟨List.cons_ne_nil _ _, _, hclose, rfl⟩
    · by_cases ho : o = ordered
      · subst ho
        simp only [advance, if_true]
        exact ⟨by simp [Pending.Filled], _, hnone, by simp [Pending.contents, Line.content]⟩
      · simp only [advance, ho, if_false]
        exact ⟨List.cons_ne_nil _ _, _, hclose, rfl⟩
  | plain text =>
    rcases p with _ | lines | _
    · exact ⟨List.cons_ne_nil _ _, _, hclose, rfl⟩
    · exact ⟨by simp [advance, Pending.Filled], _, hnone,
        by simp [advance, Pending.contents, Line.content]⟩
    · exact ⟨List.cons_ne_nil _ _, _, hclose, rfl⟩

theorem contributions_inside : contributions true rest =
    (upToFence rest).1.map .code ++ contributions false (upToFence rest).2 := by
  induction rest with
  | nil => rfl
  | cons x rest ih =>
    obtain ⟨l, line⟩ := x
    cases l with
    | fence => rfl
    | _ => simp [contributions, upToFence, ih]

theorem contributions_cons (hx : x.1 ≠ .fence) :
    contributions false (x :: rest) = x.1.content ++ contributions false rest := by
  obtain ⟨l, line⟩ := x
  cases l with
  | fence => exact absurd rfl hx
  | _ => rfl

/-- Each line's content is in exactly one block, in order. -/
theorem shows_resume {lines : List (Line × Text)} (h : p.Filled) :
    ShowAll (p.contents ++ contributions false lines) (resume p lines) := by
  induction hn : lines.length using Nat.strong_induction_on generalizing lines p with
  | _ n ih =>
    rcases lines with _ | ⟨x, rest⟩
    · rw [resume_nil, contributions, List.append_nil]
      exact showAll_close h
    · subst hn
      by_cases hx : x.1 = .fence
      · obtain ⟨l, line⟩ := x
        obtain rfl : l = .fence := hx
        have hlength := length_upToFence rest
        have hrest := @ih (upToFence rest).2.length (by rw [List.length_cons]; omega) .nothing
          (upToFence rest).2 trivial rfl
        rw [resume_fence, contributions, Bool.not_false, contributions_inside]
        exact (showAll_close h).append ((Shows.code _).showAll.append hrest)
      · obtain ⟨hfilled, c, hc, hcontents⟩ := advance_spec hx h
        have hrest := @ih rest.length (by simp) _ rest hfilled rfl
        rw [resume_cons hx, contributions_cons hx, ← List.append_assoc, ← hcontents,
          List.append_assoc]
        exact hc.append hrest

end Markdown

end BuilderPro
