import BuilderPro.Lib.CarryFilter

/-!
# OSC sequences in a carry

The scrollback sanitizer and the live stripper classify `ESC ] <ident> ; <text> <BEL | ESC \>` by
the same two tests, each with its own identifiers to drop.  A carry whose identifier is complete
and to be dropped is never let through as it is (`fate_of_ident`).
-/

namespace BuilderPro

open CarryFilter

/-- The byte of an ASCII character. -/
def ch (c : Char) : UInt8 := UInt8.ofNat c.toNat

/-- The bytes of an ASCII string. -/
def ascii (cs : List Char) : List UInt8 := cs.map ch

def esc : UInt8 := 0x1B

def bel : UInt8 := 0x07

/-- U+FFFD in UTF-8. -/
def fffd : List UInt8 := [0xEF, 0xBF, 0xBD]

namespace Osc

/-- The terminators the two filters know: BEL, or `ESC \` as the last two bytes. -/
def terminated (body : List UInt8) : Bool :=
  [bel].isSuffixOf body || [esc, ch '\\'].isSuffixOf body

/-- The identifier: the body up to the first `;`. -/
def ident (body : List UInt8) : List UInt8 := body.takeWhile (· != ch ';')

/-- `classify_osc`, with the identifiers it drops. -/
def classify (drops : List (List UInt8)) (seq : List UInt8) : Verdict :=
  let body := seq.drop 2
  if !terminated body then .incomplete
  else if drops.contains (ident body) then .drop
  else .keep

/-- Whether `seq` is the start of an OSC with one of the identifiers `idents`, or may still become
one. -/
def recognized (idents : List (List UInt8)) (seq : List UInt8) : Bool :=
  match seq with
  | e :: r :: body =>
    if e != esc || r != ch ']' then false
    else if body.contains (ch ';') then idents.contains (ident body)
    else !body.isEmpty && idents.any fun full => body.isPrefixOf full
  | _ => false

theorem ident_append {n : List UInt8} (hn : ch ';' ∉ n) (q : List UInt8) :
    ident (n ++ ch ';' :: q) = n := by
  unfold ident
  rw [List.takeWhile_append_of_pos (fun a ha => by
    simpa using fun h : a = ch ';' => hn (h ▸ ha)), List.takeWhile_cons_of_neg (by simp),
    List.append_nil]

section Filter

variable {R : Rules UInt8} {idents : List (List UInt8)}
  (hc : ∀ body, R.classify (esc :: ch ']' :: body) = classify idents (esc :: ch ']' :: body))
  (hr : ∀ seq, R.recognized seq = recognized idents seq)
include hc hr

/-- Once its identifier is one to drop, an OSC is dropped, held or defused. -/
theorem fate_of_ident {n : List UInt8} (hn : n ∈ idents) (hs : ch ';' ∉ n) (q : List UInt8) :
    R.fate (esc :: ch ']' :: (n ++ ch ';' :: q)) ≠ some .kept ∧
      R.fate (esc :: ch ']' :: (n ++ ch ';' :: q)) ≠ some .flushed := by
  have hrec : R.recognized (esc :: ch ']' :: (n ++ ch ';' :: q)) = true := by
    simp [hr, recognized, ident_append hs, hn]
  have hdrop : R.classify (esc :: ch ']' :: (n ++ ch ';' :: q)) = .incomplete ∨
      R.classify (esc :: ch ']' :: (n ++ ch ';' :: q)) = .drop := by
    rw [hc]
    simp only [classify, List.drop_succ_cons, List.drop_zero, ident_append hs,
      List.contains_iff_mem.2 hn]
    split_ifs <;> simp
  unfold Rules.fate
  rcases hdrop with h | h <;> rw [h] <;> simp only [hrec, if_true]
  · split_ifs <;> simp
  · simp

/-- A sequence that is let through does not start with an identifier to drop. -/
theorem not_ident_prefix {n : List UInt8} (hn : n ∈ idents) (hs : ch ';' ∉ n)
    (hinits : ∀ p ∈ (esc :: ch ']' :: (n ++ [ch ';'])).inits,
      R.fate p ≠ some .kept ∧ R.fate p ≠ some .flushed)
    {c rest : List UInt8} {f : Fate} (h : R.WF (.seq c f)) (hf : f = .kept ∨ f = .flushed) :
    ¬ esc :: ch ']' :: (n ++ [ch ';']) <+: c ++ rest := by
  intro hp
  obtain ⟨⟨q, hq⟩, -⟩ := h.start hf hinits hp
  obtain ⟨h1, h2⟩ := fate_of_ident hc hr hn hs q
  rw [show esc :: ch ']' :: (n ++ ch ';' :: q) = c by simp [← hq], h.fate] at h1 h2
  rcases hf with rfl | rfl
  · exact h1 rfl
  · exact h2 rfl

end Filter

end Osc

end BuilderPro
