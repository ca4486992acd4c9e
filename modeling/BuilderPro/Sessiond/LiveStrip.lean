import BuilderPro.Lib.CarryFilterText
import BuilderPro.Sessiond.OscParser
import BuilderPro.Sessiond.OscSequence

/-!
# The live stripper

`attach.rs`: each attachment's copy of the PTY's output loses its OSC-133 and OSC-7 marks on the
way to the client, and nothing else.  The daemon's own tokenizer finds a mark in what is sent exactly
where an escape sequence that the stripper let through carries a further ESC that starts one
(`live_stream_quiet_iff`).
-/

namespace BuilderPro

open CarryFilter

namespace Live

def carryCap : ℕ := 256

def recognizedCap : ℕ := 8192

/-- The identifiers of the daemon's own marks. -/
def markIdents : List (List UInt8) := [ascii ['1', '3', '3'], ascii ['7']]

def isOsc133OrOsc7Prefix (seq : List UInt8) : Bool := Osc.recognized markIdents seq

def classifyOsc (seq : List UInt8) : Verdict := Osc.classify markIdents seq

def classify : List UInt8 → Verdict
  | seq@(_ :: b :: _) => if b ≠ ch ']' then .keep else classifyOsc seq
  | _ => .incomplete

def rules : Rules UInt8 where
  lead b := b == esc
  classify := classify
  recognized := isOsc133OrOsc7Prefix
  carryCap := carryCap
  recognizedCap := recognizedCap
  defused := fffd

theorem defused_lead : ∀ a ∈ rules.defused, rules.lead a = false := by
  intro a ha
  simp only [rules, fffd, List.mem_cons, List.not_mem_nil, or_false] at ha
  rcases ha with rfl | rfl | rfl <;> rfl

/-- The segments the stripper makes of a stream. -/
def segments (stream : List UInt8) : List (Seg UInt8) := (rules.read [] stream).1

theorem segments_wf (stream : List UInt8) : ∀ s ∈ segments stream, rules.WF s :=
  (rules.read_wf (.inl rfl) stream).1

end Live

/-- The per-attachment filter: its carry is empty or a sequence it can hold. -/
structure LiveOscStripper where
  carry : List UInt8
  held : carry = [] ∨ Live.rules.Held carry

namespace LiveOscStripper

def new : LiveOscStripper := ⟨[], .inl rfl⟩

theorem feed_held (s : LiveOscStripper) (chunk : List UInt8) :
    (Live.rules.feed s.carry chunk).2 = [] ∨ Live.rules.Held (Live.rules.feed s.carry chunk).2 := by
  rw [Live.rules.feed_eq_read]
  exact (Live.rules.read_wf s.held chunk).2

def strip (s : LiveOscStripper) (chunk : List UInt8) : List UInt8 × LiveOscStripper :=
  ((Live.rules.feed s.carry chunk).1, ⟨(Live.rules.feed s.carry chunk).2, s.feed_held chunk⟩)

/-- Chunk by chunk: everything the client is sent, and the stripper after it. -/
def stripAll (s : LiveOscStripper) : List (List UInt8) → List UInt8 × LiveOscStripper
  | [] => ([], s)
  | c :: cs =>
    let r := s.strip c
    let q := r.2.stripAll cs
    (r.1 ++ q.1, q.2)

theorem stripAll_eq (s : LiveOscStripper) (chunks : List (List UInt8)) :
    ((s.stripAll chunks).1, (s.stripAll chunks).2.carry)
      = Live.rules.feed s.carry chunks.flatten := by
  rw [← Live.rules.feedAll_eq]
  induction chunks generalizing s with
  | nil => rfl
  | cons c cs ih =>
    have := ih (s.strip c).2
    simp only [stripAll, Rules.feedAll]
    rw [show (Live.rules.feed s.carry c).2 = (s.strip c).2.carry from rfl, ← this]
    rfl

theorem stripAll_append (s : LiveOscStripper) (xs ys : List (List UInt8)) :
    s.stripAll (xs ++ ys) = ((s.stripAll xs).1 ++ ((s.stripAll xs).2.stripAll ys).1,
      ((s.stripAll xs).2.stripAll ys).2) := by
  induction xs generalizing s with
  | nil => rfl
  | cons c cs ih => simp only [List.cons_append, stripAll, ih, List.append_assoc]

end LiveOscStripper

/-! ### What the live stream can carry -/

open OscParser

namespace Live

theorem startsMark_lead (t : List UInt8) (h : StartsMark t) :
    ∃ l v, t = l :: v ∧ rules.lead l := by
  obtain ⟨p, r, rfl, -⟩ := h
  exact ⟨esc, ch ']' :: (p ++ r), rfl, rfl⟩

/-- A mark starts with one of the two identifiers. -/
theorem startsMark_ident {t : List UInt8} (h : StartsMark t) :
    ∃ n ∈ markIdents, esc :: ch ']' :: (n ++ [ch ';']) <+: t := by
  obtain ⟨p, r, rfl, -, -, -, hp⟩ := h
  obtain ⟨n, hn, q, rfl⟩ := parseOscPayload_isSome hp
  exact ⟨n, hn, q ++ r, by simp⟩

/-- No mark starts where a sequence that is let through does. -/
theorem not_startsMark (c : List UInt8) (f : Fate) (rest : List UInt8) (h : rules.WF (.seq c f))
    (hf : f = .kept ∨ f = .flushed) : ¬ StartsMark (c ++ rest) := by
  intro hm
  obtain ⟨n, hn, hp⟩ := startsMark_ident hm
  have hs : ∀ n ∈ markIdents, ch ';' ∉ n ∧ ∀ p ∈ (esc :: ch ']' :: (n ++ [ch ';'])).inits,
      rules.fate p ≠ some .kept ∧ rules.fate p ≠ some .flushed := by decide
  exact Osc.not_ident_prefix (fun body => by simp [rules, classify, classifyOsc]) (fun _ => rfl)
    hn (hs n hn).1 (hs n hn).2 h hf hp

end Live

namespace LiveOscStripper

open Live

/-- The tokenizer reports nothing of what the client is sent exactly when no mark starts at an ESC
inside a sequence the stripper let through. -/
theorem live_stream_quiet_iff (chunks : List (List UInt8)) :
    (OscParser.new.feed (new.stripAll chunks).1).1 = [] ↔
      ∀ t, rules.Inner (segments chunks.flatten) t → ¬ StartsMark t := by
  have hout : (new.stripAll chunks).1 = rules.shownAll (segments chunks.flatten) := by
    have := congrArg Prod.fst (new.stripAll_eq chunks)
    rw [rules.feed_eq_read] at this
    exact this
  have key := Rules.exists_suffix_iff (R := rules) startsMark_lead defused_lead not_startsMark
    (segments_wf chunks.flatten) fun _ => True
  rw [feed_eq_nil_iff, hout]
  unfold HasMark
  constructor
  · intro h t ht hm
    obtain ⟨t', h1, -, h2⟩ := key.2 ⟨t, ht, trivial, hm⟩
    exact h ⟨t', h1, h2⟩
  · rintro h ⟨t, h1, h2⟩
    obtain ⟨t', ht', -, hm'⟩ := key.1 ⟨t, h1, trivial, h2⟩
    exact h t' ht' hm'

/-- `ESC ESC ] 133 ; A BEL`: the doubled ESC is kept as a two-byte escape, and the mark its second
ESC starts reaches the client. -/
theorem doubled_esc_leaks : ¬ ∀ chunks : List (List UInt8),
    (OscParser.new.feed (new.stripAll chunks).1).1 = [] := by
  intro h
  have := h [[esc, esc, ch ']', ch '1', ch '3', ch '3', ch ';', ch 'A', bel]]
  revert this
  decide

end LiveOscStripper

end BuilderPro
