import BuilderPro.Lib.JsString
import Mathlib.Data.List.Forall2

/-!
# The marks of a line

`renderInline` goes over a text once and searches forward for what closes a mark; where nothing does,
the mark is text.  The nodes, with their delimiters put back, are the text (`spelled_renderInline`).
-/

namespace BuilderPro

open Js (Text)

namespace Markdown

/-- A React node, with its key where it has one; the styles are left out. -/
inductive ReactNode
  | text (text : Text)
  | code (key : ℕ) (text : Text)
  | strong (key : ℕ) (text : Text)
  | em (key : ℕ) (text : Text)
  | link (key : ℕ) (title text : Text)

def backtick : UInt16 := Js.unit (Char.ofNat 0x60)

def star : UInt16 := Js.unit '*'

def underscore : UInt16 := Js.unit '_'

/-- `WORD_CHAR_RE`; past either end there is no character. -/
def isWordChar : Option UInt16 → Bool
  | none => false
  | some u => Js.unit 'A' ≤ u && u ≤ Js.unit 'Z' || Js.unit 'a' ≤ u && u ≤ Js.unit 'z' ||
      Js.unit '0' ≤ u && u ≤ Js.unit '9'

def isSpace : Option UInt16 → Bool
  | none => true
  | some u => u = Js.unit ' ' || u = 0x09

structure Render where
  nodes : List ReactNode
  buffer : Text
  key : ℕ

def Render.flush (s : Render) : Render :=
  if s.buffer ≠ [] then { s with nodes := s.nodes ++ [.text s.buffer], buffer := [] } else s

/-- `flush` and the element after it. -/
def Render.push (s : Render) (element : ℕ → ReactNode) : Render :=
  { s.flush with nodes := s.flush.nodes ++ [element s.key], key := s.key + 1 }

/-- What is not a mark. -/
def Render.literal (s : Render) (t : Text) : Render := { s with buffer := s.buffer ++ t }

variable {text pat t : Text} {i start close : ℕ}

/-- The loop that searches for what closes `**`. -/
def closeStrong (text : Text) (i start : ℕ) : Option ℕ :=
  if start < text.length then
    match h : Js.indexOf text [star, star] start with
    | none => none
    | some close =>
      if close < i + 2 then none
      else if close > i + 2 ∧ ¬isSpace text[close - 1]? then some close
      else closeStrong text i (close + 2)
  else none
termination_by text.length - start
decreasing_by
  have hfound := Js.indexOf_eq_some h
  omega

/-- The loop that searches for what closes `*` or `_`. -/
def closeEm (text : Text) (ch : UInt16) (i start : ℕ) : Option ℕ :=
  if start < text.length then
    match h : Js.indexOf text [ch] start with
    | none => none
    | some close =>
      if close ≤ i then none
      else if close > i + 1 ∧ ¬isSpace text[close - 1]? ∧
          ¬(ch = underscore ∧ isWordChar text[close + 1]?) then some close
      else closeEm text ch i (close + 1)
  else none
termination_by text.length - start
decreasing_by
  have hfound := Js.indexOf_eq_some h
  omega

/-- What closes a link: the bracket and the parenthesis. -/
def closeLink (text : Text) (i : ℕ) : Option (ℕ × ℕ) :=
  (Js.indexOf text [Js.unit ']'] (i + 1)).bind fun closeBracket =>
    if closeBracket > i ∧ text[closeBracket + 1]? = some (Js.unit '(') then
      (Js.indexOf text [Js.unit ')'] (closeBracket + 2)).bind fun closeParen =>
        if closeParen > closeBracket + 1 then some (closeBracket, closeParen) else none
    else none

/-- The closing backtick, where something is between. -/
def closeCode (text : Text) (i : ℕ) : Option ℕ :=
  (Js.indexOf text [backtick] (i + 1)).filter fun close => close > i + 1

theorem closeStrong_eq_some (h : closeStrong text i start = some close) :
    i + 2 < close ∧ [star, star] <+: text.drop close := by
  fun_induction closeStrong text i start with
  | case1 start hlt hnone => simp at h
  | case2 start hlt found hfound hbefore => simp at h
  | case3 start hlt found hfound hafter hcloses =>
    obtain rfl := Option.some.inj h
    exact ⟨hcloses.1, (Js.indexOf_eq_some hfound).2.2⟩
  | case4 start hlt found hfound hafter hcloses ih => exact ih h
  | case5 start hge => simp at h

theorem closeEm_eq_some {ch : UInt16} (h : closeEm text ch i start = some close) :
    i + 1 < close ∧ [ch] <+: text.drop close := by
  fun_induction closeEm text ch i start with
  | case1 start hlt hnone => simp at h
  | case2 start hlt found hfound hbefore => simp at h
  | case3 start hlt found hfound hafter hcloses =>
    obtain rfl := Option.some.inj h
    exact ⟨hcloses.1, (Js.indexOf_eq_some hfound).2.2⟩
  | case4 start hlt found hfound hafter hcloses ih => exact ih h
  | case5 start hge => simp at h

theorem closeCode_eq_some (h : closeCode text i = some close) :
    i + 1 < close ∧ [backtick] <+: text.drop close := by
  rw [closeCode, Option.filter_eq_some_iff] at h
  exact ⟨by simpa using h.2, (Js.indexOf_eq_some h.1).2.2⟩

theorem closeLink_eq_some {bracket paren : ℕ} (h : closeLink text i = some (bracket, paren)) :
    i < bracket ∧ bracket + 1 < paren ∧ [Js.unit ']'] <+: text.drop bracket ∧
      text[bracket + 1]? = some (Js.unit '(') ∧ [Js.unit ')'] <+: text.drop paren := by
  obtain ⟨bracket', hbracket, h⟩ := Option.bind_eq_some_iff.1 h
  split_ifs at h with hopens
  obtain ⟨paren', hparen, h⟩ := Option.bind_eq_some_iff.1 h
  split_ifs at h with hafter
  obtain ⟨rfl, rfl⟩ := Prod.mk.inj (Option.some.inj h)
  exact ⟨hopens.1, hafter, (Js.indexOf_eq_some hbracket).2.2, hopens.2,
    (Js.indexOf_eq_some hparen).2.2⟩

/-- Whether `*` or `_` may open a mark: nothing white is next, and no word is before `_`. -/
def opensEm (text : Text) (ch : UInt16) (i : ℕ) : Bool :=
  !isSpace text[i + 1]? && !(ch = underscore && isWordChar (if i > 0 then text[i - 1]? else none))

def renderFrom (text : Text) (i : ℕ) (s : Render) : Render :=
  match h : text[i]? with
  | none => s
  | some ch =>
    if ch = backtick then
      match hclose : closeCode text i with
      | some close =>
        renderFrom text (close + 1) (s.push fun key => .code key (Js.slice text (i + 1) close))
      | none => renderFrom text (i + 1) (s.literal [ch])
    else if ch = star ∧ text[i + 1]? = some star then
      match hclose : if isSpace text[i + 2]? then none else closeStrong text i (i + 2) with
      | some close =>
        renderFrom text (close + 2) (s.push fun key => .strong key (Js.slice text (i + 2) close))
      | none => renderFrom text (i + 2) (s.literal [star, star])
    else if ch = star ∨ ch = underscore then
      match hclose : if opensEm text ch i then closeEm text ch i (i + 1) else none with
      | some close =>
        renderFrom text (close + 1) (s.push fun key => .em key (Js.slice text (i + 1) close))
      | none => renderFrom text (i + 1) (s.literal [ch])
    else if ch = Js.unit '[' then
      match hclose : closeLink text i with
      | some (bracket, paren) =>
        renderFrom text (paren + 1) (s.push fun key =>
          .link key (Js.slice text (bracket + 2) paren) (Js.slice text (i + 1) bracket))
      | none => renderFrom text (i + 1) (s.literal [ch])
    else renderFrom text (i + 1) (s.literal [ch])
termination_by text.length - i
decreasing_by
  all_goals have hi := (List.getElem?_eq_some_iff.1 h).1
  · have hfound := closeCode_eq_some hclose
    omega
  · omega
  · split_ifs at hclose
    have hfound := closeStrong_eq_some hclose
    omega
  · omega
  · split_ifs at hclose
    have hfound := closeEm_eq_some hclose
    omega
  · omega
  · have hfound := closeLink_eq_some hclose
    omega
  · omega
  · omega

def renderInline (text : Text) : List ReactNode := (renderFrom text 0 ⟨[], [], 0⟩).flush.nodes

/-! ### The text is in the nodes -/

/-- The source of a node: its text with its delimiters. -/
inductive Spells : ReactNode → Text → Prop
  | text (t : Text) : Spells (.text t) t
  | code (key : ℕ) (t : Text) : Spells (.code key t) ([backtick] ++ t ++ [backtick])
  | strong (key : ℕ) (t : Text) : Spells (.strong key t) ([star, star] ++ t ++ [star, star])
  | em (key : ℕ) (t : Text) (ch : UInt16) (h : ch = star ∨ ch = underscore) :
    Spells (.em key t) ([ch] ++ t ++ [ch])
  | link (key : ℕ) (title t : Text) : Spells (.link key title t)
    ([Js.unit '['] ++ t ++ [Js.unit ']', Js.unit '('] ++ title ++ [Js.unit ')'])

/-- Nodes that a text is the source of, one after another. -/
def Spelled (nodes : List ReactNode) (t : Text) : Prop :=
  ∃ sources, List.Forall₂ Spells nodes sources ∧ sources.flatten = t

/-- The nodes and the buffer are the text so far. -/
def Render.Keeps (s : Render) (t : Text) : Prop :=
  ∃ before, Spelled s.nodes before ∧ before ++ s.buffer = t

variable {s : Render}

theorem spelled_concat {nodes : List ReactNode} {node : ReactNode} {source : Text}
    (h : Spelled nodes t) (hnode : Spells node source) :
    Spelled (nodes ++ [node]) (t ++ source) := by
  obtain ⟨sources, hsources, rfl⟩ := h
  refine ⟨sources ++ [source], List.rel_append hsources (.cons hnode .nil), ?_⟩
  rw [List.flatten_append, List.flatten_singleton]

theorem keeps_flush (h : s.Keeps t) : Spelled s.flush.nodes t ∧ s.flush.buffer = [] := by
  obtain ⟨before, hspelled, rfl⟩ := h
  unfold Render.flush
  split_ifs with hbuffer
  · exact ⟨spelled_concat hspelled (.text _), rfl⟩
  · have hnil : s.buffer = [] := not_not.1 hbuffer
    rw [hnil, List.append_nil]
    exact ⟨hspelled, rfl⟩

theorem keeps_push {element : ℕ → ReactNode} {source : Text} (h : s.Keeps t)
    (helement : ∀ key, Spells (element key) source) : (s.push element).Keeps (t ++ source) := by
  obtain ⟨hspelled, hbuffer⟩ := keeps_flush h
  refine ⟨t ++ source, spelled_concat hspelled (helement s.key), ?_⟩
  show t ++ source ++ s.flush.buffer = _
  rw [hbuffer, List.append_nil]

theorem keeps_literal {u : Text} (h : s.Keeps t) : (s.literal u).Keeps (t ++ u) := by
  obtain ⟨before, hspelled, rfl⟩ := h
  exact ⟨before, hspelled, (List.append_assoc _ _ _).symm⟩

/-- From a mark's opening to its closing. -/
theorem take_mark {opening closing : Text} {a b c : ℕ} (hopening : Js.slice text i a = opening)
    (hclosing : Js.slice text b c = closing) (hia : i ≤ a) (hab : a ≤ b) (hbc : b ≤ c) :
    text.take i ++ (opening ++ Js.slice text a b ++ closing) = text.take c := by
  rw [← hopening, ← hclosing, Js.slice_append_slice hia hab, Js.slice_append_slice (hia.trans hab) hbc,
    Js.take_append_slice ((hia.trans hab).trans hbc)]

theorem slice_two {u v : UInt16} (hu : text[i]? = some u) (hv : text[i + 1]? = some v) :
    Js.slice text i (i + 2) = [u, v] := by
  rw [← Js.slice_append_slice (Nat.le_add_right i 1) (Nat.le_add_right (i + 1) 1),
    Js.slice_succ hu, Js.slice_succ hv]
  rfl

theorem take_literal {ch : UInt16} (h : text[i]? = some ch) :
    text.take i ++ [ch] = text.take (i + 1) := by
  rw [← Js.slice_succ h, Js.take_append_slice (Nat.le_add_right i 1)]

theorem keeps_renderFrom (h : s.Keeps (text.take i)) : (renderFrom text i s).Keeps text := by
  fun_induction renderFrom text i s with
  | case1 i s hnone =>
    rwa [List.take_of_length_le (List.getElem?_eq_none_iff.1 hnone)] at h
  | case2 i s close hclose hch ih =>
    obtain ⟨hafter, hpat⟩ := closeCode_eq_some hclose
    refine ih ?_
    have hsource := keeps_push h (Spells.code · (Js.slice text (i + 1) close))
    rwa [take_mark (Js.slice_succ hch) (Js.slice_eq_pat hpat) (by omega) (by omega)
      (by simp)] at hsource
  | case3 i s hnone hch ih =>
    refine ih ?_
    rw [← take_literal hch]
    exact keeps_literal h
  | case4 i s ch hch hcode hstars close hclose ih =>
    split_ifs at hclose
    obtain ⟨hafter, hpat⟩ := closeStrong_eq_some hclose
    refine ih ?_
    have hsource := keeps_push h (Spells.strong · (Js.slice text (i + 2) close))
    rw [hstars.1] at hch
    rwa [take_mark (slice_two hch hstars.2) (Js.slice_eq_pat hpat) (by omega) (by omega)
      (by simp)] at hsource
  | case5 i s ch hch hcode hstars hnone ih =>
    refine ih ?_
    rw [hstars.1] at hch
    have hsource := @keeps_literal _ _ [star, star] h
    rwa [← slice_two hch hstars.2, Js.take_append_slice (by omega), slice_two hch hstars.2]
      at hsource
  | case6 i s ch hch hcode hstars hem close hclose ih =>
    split_ifs at hclose
    obtain ⟨hafter, hpat⟩ := closeEm_eq_some hclose
    refine ih ?_
    have hsource := keeps_push h (Spells.em · (Js.slice text (i + 1) close) ch hem)
    rwa [take_mark (Js.slice_succ hch) (Js.slice_eq_pat hpat) (by omega) (by omega)
      (by simp)] at hsource
  | case7 i s ch hch hcode hstars hem hnone ih =>
    refine ih ?_
    rw [← take_literal hch]
    exact keeps_literal h
  | case8 i s bracket paren hclose hch hcode hstars hem ih =>
    obtain ⟨hafter, hopens, hpat, hparen, hpat'⟩ := closeLink_eq_some hclose
    refine ih ?_
    have hsource := keeps_push h
      (Spells.link · (Js.slice text (bracket + 2) paren) (Js.slice text (i + 1) bracket))
    have hmiddle := slice_two (Js.getElem?_of_pat hpat) hparen
    rwa [List.append_assoc _ (Js.slice text (bracket + 2) paren), ← List.append_assoc,
      take_mark (Js.slice_succ hch) hmiddle (by omega) (by omega) (by omega),
      ← Js.slice_eq_pat hpat', Js.slice_append_slice (by omega) (by omega),
      Js.take_append_slice (by simp; omega)] at hsource
  | case9 i s hnone hch hcode hstars hem ih =>
    refine ih ?_
    rw [← take_literal hch]
    exact keeps_literal h
  | case10 i s ch hch hcode hstars hem hlink ih =>
    refine ih ?_
    rw [← take_literal hch]
    exact keeps_literal h

/-- The nodes of a text, with their delimiters put back, are the text. -/
theorem spelled_renderInline : Spelled (renderInline text) text := by
  have hstart : Render.Keeps ⟨[], [], 0⟩ (text.take 0) := ⟨[], ⟨[], .nil, rfl⟩, rfl⟩
  exact (keeps_flush (keeps_renderFrom hstart)).1

end Markdown

end BuilderPro
