import BuilderPro.Sessiond.OscSequence

/-!
# The OSC-133/OSC-7 tokenizer

`osc_parser.rs`: a side channel that reads prompt, command and cwd events off the PTY's output.
The tokenizer is context free: on any text it reports an event exactly where the text holds a
complete mark (`feed_eq_nil_iff`), whatever surrounds it.
-/

namespace BuilderPro

inductive OscEvent
  | promptStart
  | promptEnd
  | commandStart
  | commandEnd (code : Option UInt8)
  | cwd (path : String)
  deriving DecidableEq

namespace OscParser

def oscBufCap : ℕ := 8 * 1024

inductive State
  | ground
  | escape
  | osc
  | oscEsc
  deriving DecidableEq, Repr

/-! ## Payloads -/

def fromUtf8 (bs : List UInt8) : Option String := String.fromUTF8? ⟨bs.toArray⟩

/-- `u32::from_str`: an optional `+`, then decimal digits, within 32 bits. -/
def parseU32 (field : List UInt8) : Option ℕ :=
  let digits := match field with
    | b :: bs => if b = ch '+' ∧ bs ≠ [] then bs else field
    | [] => []
  if digits = [] then none
  else digits.foldlM (fun n b =>
    if ch '0' ≤ b ∧ b ≤ ch '9' then
      let m := n * 10 + (b.toNat - (ch '0').toNat)
      if m < UInt32.size then some m else none
    else none) 0

def parseExitCode (afterD : List UInt8) : Option UInt8 := do
  let s ← [ch ';'].isPrefixOf? afterD
  let field := s.takeWhile (· != ch ';')
  if field = [] then none
  else
    let _ ← fromUtf8 field
    let n ← parseU32 field
    if n ≤ 255 then some (UInt8.ofNat n) else none

def parse133 : List UInt8 → Option OscEvent
  | [] => none
  | letter :: rest =>
    if letter = ch 'A' then some .promptStart
    else if letter = ch 'B' then some .promptEnd
    else if letter = ch 'C' then some .commandStart
    else if letter = ch 'D' then some (.commandEnd (parseExitCode rest))
    else none

/-- `char::to_digit(16)` of a byte. -/
def hexDigit (b : UInt8) : Option UInt8 :=
  if ch '0' ≤ b ∧ b ≤ ch '9' then some (b - ch '0')
  else if ch 'a' ≤ b ∧ b ≤ ch 'f' then some (b - ch 'a' + 10)
  else if ch 'A' ≤ b ∧ b ≤ ch 'F' then some (b - ch 'A' + 10)
  else none

def percentBytes : List UInt8 → Option (List UInt8)
  | [] => some []
  | c :: rest =>
    if c = ch '%' then
      match rest with
      | h :: l :: rest => do
        let hi ← hexDigit h
        let lo ← hexDigit l
        let out ← percentBytes rest
        some ((hi * 16 + lo) :: out)
      | _ => none
    else do
      let out ← percentBytes rest
      some (c :: out)

def percentDecode (s : List UInt8) : Option String := (percentBytes s).bind fromUtf8

def parseOsc7 (rest : List UInt8) : Option OscEvent :=
  if oscBufCap < rest.length then none
  else do
    let _ ← fromUtf8 rest
    let afterScheme ← (ascii "file://".toList).isPrefixOf? rest <|>
      (ascii "kitty-shell-cwd://".toList).isPrefixOf? rest
    let rawPath := afterScheme.dropWhile (· != ch '/')
    if rawPath = [] then none
    else
      let decoded ← percentDecode rawPath
      if decoded.toList.head? = some '/' then some (.cwd decoded) else none

/-- A complete payload: the bytes after `ESC ]`, before the terminator. -/
def parseOscPayload (payload : List UInt8) : Option OscEvent :=
  match (ascii ['1', '3', '3', ';']).isPrefixOf? payload with
  | some rest => parse133 rest
  | none =>
    match (ascii ['7', ';']).isPrefixOf? payload with
    | some rest => parseOsc7 rest
    | none => none

theorem eq_append_of_isPrefixOf? {p l r : List UInt8} (h : p.isPrefixOf? l = some r) :
    l = p ++ r := by
  induction p generalizing l with
  | nil => simpa [List.isPrefixOf?] using h
  | cons a p ih =>
    rcases l with _ | ⟨b, l⟩
    · simp [List.isPrefixOf?] at h
    · simp only [List.isPrefixOf?] at h
      split_ifs at h with hab
      · rw [ih h, beq_iff_eq.1 hab, List.cons_append]

/-- Only the payloads of the two marks give an event. -/
theorem parseOscPayload_isSome {p : List UInt8} (h : (parseOscPayload p).isSome) :
    ∃ n ∈ [ascii ['1', '3', '3'], ascii ['7']], ∃ q, p = n ++ ch ';' :: q := by
  unfold parseOscPayload at h
  split at h
  · rename_i rest hr
    refine ⟨ascii ['1', '3', '3'], by simp, rest, ?_⟩
    simpa [ascii] using eq_append_of_isPrefixOf? hr
  · split at h
    · rename_i rest hr
      refine ⟨ascii ['7'], by simp, rest, ?_⟩
      simpa [ascii] using eq_append_of_isPrefixOf? hr
    · simp at h

end OscParser

/-! ## The tokenizer -/

structure OscParser where
  state : OscParser.State
  buf : List UInt8
  overflowed : Bool

namespace OscParser

def new : OscParser := ⟨.ground, [], false⟩

def pushOscByte (p : OscParser) (b : UInt8) : OscParser :=
  if p.overflowed then p
  else if oscBufCap ≤ p.buf.length then { p with overflowed := true, buf := [] }
  else { p with buf := p.buf ++ [b] }

def finishOsc (p : OscParser) : List OscEvent × OscParser :=
  if p.overflowed then ([], { p with buf := [], overflowed := false })
  else ((parseOscPayload p.buf).toList, { p with buf := [] })

/-- One byte: the event it completes, if any, and the parser after it. -/
def step (p : OscParser) (b : UInt8) : List OscEvent × OscParser :=
  match p.state with
  | .ground => if b = esc then ([], { p with state := .escape }) else ([], p)
  | .escape =>
    if b = ch ']' then ([], { state := .osc, buf := [], overflowed := false })
    else if b = esc then ([], { p with state := .escape })
    else ([], { p with state := .ground })
  | .osc =>
    if b = bel then (p.finishOsc.1, { p.finishOsc.2 with state := .ground })
    else if b = esc then ([], { p with state := .oscEsc })
    else ([], p.pushOscByte b)
  | .oscEsc =>
    if b = ch '\\' then (p.finishOsc.1, { p.finishOsc.2 with state := .ground })
    else if b = ch ']' then (p.finishOsc.1, { state := .osc, buf := [], overflowed := false })
    else if b = esc then ([], { p with state := .oscEsc })
    else (p.finishOsc.1, { p.finishOsc.2 with state := .ground })

def feed (p : OscParser) : List UInt8 → List OscEvent × OscParser
  | [] => ([], p)
  | b :: bs =>
    let s := p.step b
    let r := s.2.feed bs
    (s.1 ++ r.1, r.2)

@[simp] theorem feed_nil (p : OscParser) : p.feed [] = ([], p) := rfl

@[simp] theorem feed_cons (p : OscParser) (b : UInt8) (bs : List UInt8) :
    p.feed (b :: bs) = ((p.step b).1 ++ ((p.step b).2.feed bs).1, ((p.step b).2.feed bs).2) := rfl

theorem feed_append (p : OscParser) (xs ys : List UInt8) :
    p.feed (xs ++ ys)
      = ((p.feed xs).1 ++ ((p.feed xs).2.feed ys).1, ((p.feed xs).2.feed ys).2) := by
  induction xs generalizing p with
  | nil => simp
  | cons b bs ih => simp [ih]

/-! Each state's steps. -/

section Steps

variable {p : OscParser} {b : UInt8}

theorem step_ground_esc (h : p.state = .ground) :
    p.step esc = ([], { p with state := .escape }) := by
  simp [step, h]

theorem step_ground (h : p.state = .ground) (hb : b ≠ esc) : p.step b = ([], p) := by
  simp [step, h, hb]

theorem step_escape_osc (h : p.state = .escape) :
    p.step (ch ']') = ([], { state := .osc, buf := [], overflowed := false }) := by
  simp [step, h]

theorem step_escape_esc (h : p.state = .escape) :
    p.step esc = ([], { p with state := .escape }) := by
  simp [step, h, show esc ≠ ch ']' by decide]

theorem step_escape (h : p.state = .escape) (hb : b ≠ ch ']') (he : b ≠ esc) :
    p.step b = ([], { p with state := .ground }) := by
  simp [step, h, hb, he]

theorem step_osc_bel (h : p.state = .osc) :
    p.step bel = (p.finishOsc.1, { p.finishOsc.2 with state := .ground }) := by
  simp [step, h]

theorem step_osc_esc (h : p.state = .osc) : p.step esc = ([], { p with state := .oscEsc }) := by
  simp [step, h, show esc ≠ bel by decide]

theorem step_osc (h : p.state = .osc) (hb : b ≠ bel) (he : b ≠ esc) :
    p.step b = ([], p.pushOscByte b) := by
  simp [step, h, hb, he]

theorem step_oscEsc_osc (h : p.state = .oscEsc) :
    p.step (ch ']') = (p.finishOsc.1, { state := .osc, buf := [], overflowed := false }) := by
  simp [step, h, show ch ']' ≠ ch '\\' by decide]

theorem step_oscEsc_esc (h : p.state = .oscEsc) :
    p.step esc = ([], { p with state := .oscEsc }) := by
  simp [step, h, show esc ≠ ch '\\' by decide, show esc ≠ ch ']' by decide]

/-- `ESC \` and an implicit terminator close the OSC alike. -/
theorem step_oscEsc (h : p.state = .oscEsc) (hb : b ≠ ch ']') (he : b ≠ esc) :
    p.step b = (p.finishOsc.1, { p.finishOsc.2 with state := .ground }) := by
  simp [step, h, hb, he]

end Steps

/-! ## Marks -/

/-- An OSC's terminator starts here: BEL, or ESC and whatever byte ends the run of ESCs. -/
def Terminator (r : List UInt8) : Prop :=
  r.head? = some bel ∨ (r.head? = some esc ∧ ∃ c ∈ r, c ≠ esc)

/-- A mark starts here: `ESC ]`, a payload within the cap that gives an event, a terminator. -/
def StartsMark (t : List UInt8) : Prop :=
  ∃ p r, t = esc :: ch ']' :: (p ++ r) ∧ (∀ b ∈ p, b ≠ esc ∧ b ≠ bel) ∧ Terminator r
    ∧ p.length ≤ oscBufCap ∧ (parseOscPayload p).isSome

def HasMark (w : List UInt8) : Prop := ∃ t, t <:+ w ∧ StartsMark t

theorem hasMark_nil : ¬ HasMark [] := by
  rintro ⟨t, ht, p, r, rfl, -⟩
  simp at ht

theorem hasMark_cons {b : UInt8} {w : List UInt8} :
    HasMark (b :: w) ↔ StartsMark (b :: w) ∨ HasMark w := by
  constructor
  · rintro ⟨t, ht, hm⟩
    rcases List.suffix_cons_iff.1 ht with rfl | ht
    · exact .inl hm
    · exact .inr ⟨t, ht, hm⟩
  · rintro (h | ⟨t, ht, hm⟩)
    · exact ⟨_, List.suffix_rfl, h⟩
    · exact ⟨t, ht.trans (List.suffix_cons _ _), hm⟩

theorem StartsMark.two {b c : UInt8} {w : List UInt8} (h : StartsMark (b :: c :: w)) :
    b = esc ∧ c = ch ']' := by
  obtain ⟨p, r, h, -⟩ := h
  simp only [List.cons.injEq] at h
  exact ⟨h.1, h.2.1⟩

theorem StartsMark.esc {b : UInt8} {w : List UInt8} (h : StartsMark (b :: w)) : b = esc := by
  obtain ⟨p, r, h, -⟩ := h
  exact (List.cons.inj h).1

theorem hasMark_cons_of_ne {b : UInt8} {w : List UInt8} (hb : b ≠ esc) :
    HasMark (b :: w) ↔ HasMark w := by
  rw [hasMark_cons, or_iff_right fun h => hb h.esc]

theorem hasMark_esc_of_ne {c : UInt8} {w : List UInt8} (hc : c ≠ ch ']') :
    HasMark (esc :: c :: w) ↔ HasMark (c :: w) := by
  rw [hasMark_cons, or_iff_right fun h => hc h.two.2]

theorem hasMark_payload {q w : List UInt8} (hq : ∀ b ∈ q, b ≠ esc ∧ b ≠ bel) :
    HasMark (q ++ w) ↔ HasMark w := by
  induction q with
  | nil => rfl
  | cons b q ih =>
    rw [List.cons_append, hasMark_cons_of_ne (hq b List.mem_cons_self).1,
      ih fun b hb => hq b (List.mem_cons_of_mem _ hb)]

theorem not_startsMark_singleton {b : UInt8} : ¬ StartsMark [b] := by
  rintro ⟨p, r, h, -⟩
  simp at h

/-- A run of ESCs before a byte that opens no OSC holds no mark. -/
theorem hasMark_escs {k : ℕ} {c : UInt8} {w : List UInt8} (hc : c ≠ esc) (hc' : c ≠ ch ']') :
    HasMark (List.replicate k esc ++ c :: w) ↔ HasMark w := by
  induction k with
  | zero => exact hasMark_cons_of_ne hc
  | succ k ih =>
    rw [List.replicate_succ, List.cons_append, hasMark_cons, or_iff_right, ih]
    intro h
    rcases k with _ | k
    · exact hc' h.two.2
    · have : esc ≠ ch ']' := by decide
      exact this (StartsMark.two (by simpa [List.replicate_succ] using h)).2

/-- Of a run of ESCs only the last can open an OSC. -/
theorem hasMark_escs_osc {k : ℕ} {w : List UInt8} :
    HasMark (List.replicate (k + 1) esc ++ ch ']' :: w) ↔ HasMark (esc :: ch ']' :: w) := by
  induction k with
  | zero => rfl
  | succ k ih =>
    rw [List.replicate_succ, List.cons_append, ← ih, List.replicate_succ, List.cons_append,
      hasMark_esc_of_ne (by decide)]

/-- A payload ends no later than the first BEL or ESC. -/
theorem payload_length_le {p q r s : List UInt8} (hq : ∀ b ∈ q, b ≠ esc ∧ b ≠ bel)
    (hr : r.head? = some bel ∨ r.head? = some esc) (h : p ++ r = q ++ s) :
    q.length ≤ p.length := by
  by_contra hlt
  obtain ⟨u, rfl⟩ : p <+: q := List.prefix_of_prefix_length_le (h ▸ List.prefix_append p r)
    (List.prefix_append q s) (by omega)
  rw [List.append_assoc, List.append_cancel_left_eq] at h
  rcases u with _ | ⟨x, u⟩
  · simp at hlt
  · obtain ⟨h1, h2⟩ := hq x (by simp)
    rcases hr with hr | hr <;> simp [h] at hr
    · exact h2 hr
    · exact h1 hr

theorem Terminator.head {r : List UInt8} (h : Terminator r) :
    r.head? = some bel ∨ r.head? = some esc := h.imp_right And.left

theorem eq_of_payload {p q r s : List UInt8} (hp : ∀ b ∈ p, b ≠ esc ∧ b ≠ bel)
    (hq : ∀ b ∈ q, b ≠ esc ∧ b ≠ bel) (hr : Terminator r) (hs : Terminator s)
    (h : p ++ r = q ++ s) : p = q := by
  have h1 := payload_length_le hq hr.head h
  have h2 := payload_length_le hp hs.head h.symm
  exact (List.append_inj h (by omega)).1

/-- An OSC followed by nothing but ESCs is not closed. -/
theorem not_startsMark_open {q : List UInt8} (hq : ∀ b ∈ q, b ≠ esc ∧ b ≠ bel) (k : ℕ) :
    ¬ StartsMark (esc :: ch ']' :: (q ++ List.replicate k esc)) := by
  rintro ⟨p, s, h, hp, hs, -⟩
  simp only [List.cons.injEq, true_and] at h
  have hlen := payload_length_le hq hs.head h.symm
  have hsuf : s <:+ List.replicate k esc := by
    have h' := congrArg List.length h
    simp only [List.length_append] at h'
    exact List.suffix_of_suffix_length_le ⟨p, h.symm⟩ (List.suffix_append _ _) (by omega)
  have hall : ∀ c ∈ s, c = esc := fun c hc => (List.mem_replicate.1 (hsuf.subset hc)).2
  rcases hs with hs | ⟨-, c, hc, hne⟩
  · have := hall bel (List.mem_of_mem_head? hs)
    revert this
    decide
  · exact hne (hall c hc)

/-- Past `ESC ]` and a payload, a terminator makes it a mark by the payload alone. -/
theorem startsMark_osc {q r : List UInt8} (hq : ∀ b ∈ q, b ≠ esc ∧ b ≠ bel) (hr : Terminator r) :
    StartsMark (esc :: ch ']' :: (q ++ r)) ↔
      q.length ≤ oscBufCap ∧ (parseOscPayload q).isSome := by
  constructor
  · rintro ⟨p, s, h, hp, hs, hlen, hsome⟩
    simp only [List.cons.injEq, true_and] at h
    rw [eq_of_payload hq hp hr hs h]
    exact ⟨hlen, hsome⟩
  · rintro ⟨hlen, hsome⟩
    exact ⟨q, r, rfl, hq, hr, hlen, hsome⟩

/-- A closed OSC followed by `w` holds the marks of its own payload and of what follows. -/
theorem hasMark_osc {q r w : List UInt8} (hq : ∀ b ∈ q, b ≠ esc ∧ b ≠ bel) (hr : Terminator r)
    (hw : HasMark r ↔ HasMark w) :
    HasMark (esc :: ch ']' :: (q ++ r)) ↔
      (q.length ≤ oscBufCap ∧ (parseOscPayload q).isSome) ∨ HasMark w := by
  rw [hasMark_cons, startsMark_osc hq hr, hasMark_cons_of_ne (by decide), hasMark_payload hq, hw]

/-! ## The tokenizer finds the marks -/

/-- The buffer of an open OSC with payload `q`: the payload, unless it outgrew the cap. -/
def Buffers (p : OscParser) (q : List UInt8) : Prop :=
  (∀ b ∈ q, b ≠ esc ∧ b ≠ bel) ∧
    if p.overflowed then oscBufCap < q.length else p.buf = q ∧ q.length ≤ oscBufCap

/-- The text a parser has read since it last knew of no sequence. -/
inductive Pending (p : OscParser) : List UInt8 → Prop
  | ground (h : p.state = .ground) : Pending p []
  | escape (h : p.state = .escape) : Pending p [esc]
  | osc {q : List UInt8} (h : p.state = .osc) (hq : p.Buffers q) :
      Pending p (esc :: ch ']' :: q)
  | oscEsc {q : List UInt8} {k : ℕ} (h : p.state = .oscEsc) (hq : p.Buffers q) :
      Pending p (esc :: ch ']' :: (q ++ List.replicate (k + 1) esc))

theorem Buffers.new {p : OscParser} (h : p.buf = []) (ho : p.overflowed = false) :
    p.Buffers [] := by
  simp [Buffers, h, ho]

theorem Buffers.push {p : OscParser} {q : List UInt8} (h : p.Buffers q) {b : UInt8}
    (h1 : b ≠ esc) (h2 : b ≠ bel) : (p.pushOscByte b).Buffers (q ++ [b]) := by
  obtain ⟨hq, hb⟩ := h
  refine ⟨fun c hc => ?_, ?_⟩
  · rcases List.mem_append.1 hc with hc | hc
    · exact hq c hc
    · rw [List.mem_singleton.1 hc]
      exact ⟨h1, h2⟩
  · have hlen : (q ++ [b]).length = q.length + 1 := List.length_append
    unfold pushOscByte
    split_ifs at hb ⊢ with ho hcap h
    · omega
    · rw [hb.1] at hcap
      omega
    · exact (h rfl).elim
    · rw [hb.1] at hcap ⊢
      exact ⟨rfl, by omega⟩

/-- Closing an OSC gives its payload's event, unless it outgrew the cap. -/
theorem Buffers.finish {p : OscParser} {q : List UInt8} (h : p.Buffers q) :
    p.finishOsc.1 = [] ↔ ¬ (q.length ≤ oscBufCap ∧ (parseOscPayload q).isSome) := by
  obtain ⟨-, hb⟩ := h
  unfold finishOsc
  split_ifs at hb ⊢ with ho
  · simp only [true_iff]
    omega
  · rw [hb.1]
    rcases hp : parseOscPayload q <;> simp [hb.2]

theorem pushOscByte_state (p : OscParser) (b : UInt8) : (p.pushOscByte b).state = p.state := by
  unfold pushOscByte
  split_ifs <;> rfl

theorem terminator_bel (w : List UInt8) : Terminator (bel :: w) := .inl rfl

theorem terminator_escs (k : ℕ) {c : UInt8} (hc : c ≠ esc) (w : List UInt8) :
    Terminator (List.replicate (k + 1) esc ++ c :: w) :=
  .inr ⟨by simp [List.replicate_succ], c, by simp, hc⟩

theorem not_hasMark_escs (k : ℕ) : ¬ HasMark (List.replicate k esc) := by
  induction k with
  | zero => exact hasMark_nil
  | succ k ih =>
    rw [List.replicate_succ, hasMark_cons]
    rintro (h | h)
    · rcases k with _ | k
      · exact not_startsMark_singleton h
      · have : esc ≠ ch ']' := by decide
        exact this (StartsMark.two (by simpa [List.replicate_succ] using h)).2
    · exact ih h

theorem not_hasMark_open {q : List UInt8} (hq : ∀ b ∈ q, b ≠ esc ∧ b ≠ bel) (k : ℕ) :
    ¬ HasMark (esc :: ch ']' :: (q ++ List.replicate k esc)) := by
  rw [hasMark_cons, hasMark_cons_of_ne (by decide), hasMark_payload hq]
  rintro (h | h)
  · exact not_startsMark_open hq k h
  · exact not_hasMark_escs k h

theorem Pending.not_hasMark {p : OscParser} {t : List UInt8} (h : p.Pending t) :
    ¬ HasMark t := by
  cases h with
  | ground h => exact hasMark_nil
  | escape h => exact not_hasMark_escs 1
  | osc h hq => simpa using not_hasMark_open hq.1 0
  | oscEsc h hq => exact not_hasMark_open hq.1 _

/-- A byte completes the mark it ends, and leaves the parser with the text of what is still
open, the last of what it read. -/
theorem Pending.step {p : OscParser} {t : List UInt8} (h : p.Pending t) (b : UInt8) :
    ∃ t', (p.step b).2.Pending t' ∧ t' <:+ t ++ [b] ∧
      ∀ w, HasMark (t ++ b :: w) ↔ (p.step b).1 ≠ [] ∨ HasMark (t' ++ w) := by
  cases h with
  | ground h =>
    by_cases hb : b = esc
    · subst hb
      rw [step_ground_esc h]
      exact ⟨[esc], .escape rfl, by simp, by simp⟩
    · rw [step_ground h hb]
      exact ⟨[], .ground h, by simp, by simp [hasMark_cons_of_ne hb]⟩
  | escape h =>
    by_cases hb : b = ch ']'
    · subst hb
      rw [step_escape_osc h]
      exact ⟨[esc, ch ']'], .osc rfl (Buffers.new rfl rfl), by simp, by simp⟩
    by_cases he : b = esc
    · subst he
      rw [step_escape_esc h]
      exact ⟨[esc], .escape rfl, ⟨[esc], rfl⟩, by simp [hasMark_esc_of_ne hb]⟩
    · rw [step_escape h hb he]
      exact ⟨[], .ground rfl, List.nil_suffix,
        by simp [hasMark_esc_of_ne hb, hasMark_cons_of_ne he]⟩
  | @osc q h hq =>
    by_cases hb : b = bel
    · subst hb
      rw [step_osc_bel h]
      refine ⟨[], .ground rfl, List.nil_suffix, fun w => ?_⟩
      rw [List.cons_append, List.cons_append, hasMark_osc (w := w) hq.1 (terminator_bel w)
        (hasMark_cons_of_ne (by decide)), ne_eq, hq.finish, not_not, List.nil_append]
    by_cases he : b = esc
    · subst he
      rw [step_osc_esc h]
      exact ⟨esc :: ch ']' :: (q ++ List.replicate (0 + 1) esc), .oscEsc rfl hq, by simp, by simp⟩
    · rw [step_osc h hb he]
      exact ⟨esc :: ch ']' :: (q ++ [b]), .osc ((pushOscByte_state p b).trans h) (hq.push he hb),
        by simp, by simp⟩
  | @oscEsc q k h hq =>
    by_cases hb : b = ch ']'
    · subst hb
      rw [step_oscEsc_osc h]
      refine ⟨[esc, ch ']'], .osc rfl (Buffers.new rfl rfl),
        ⟨esc :: ch ']' :: (q ++ List.replicate k esc), by simp [List.replicate_succ']⟩,
        fun w => ?_⟩
      rw [List.cons_append, List.cons_append, List.append_assoc,
        hasMark_osc (w := esc :: ch ']' :: w) hq.1 (terminator_escs k (by decide) w)
          hasMark_escs_osc, ne_eq, hq.finish, not_not]
      rfl
    by_cases he : b = esc
    · subst he
      rw [step_oscEsc_esc h]
      refine ⟨esc :: ch ']' :: (q ++ List.replicate (k + 1 + 1) esc), .oscEsc rfl hq,
        by simp [List.replicate_succ' (n := k + 1)], fun w => ?_⟩
      rw [List.replicate_succ' (n := k + 1)]
      simp
    · rw [step_oscEsc h hb he]
      refine ⟨[], .ground rfl, List.nil_suffix, fun w => ?_⟩
      rw [List.cons_append, List.cons_append, List.append_assoc,
        hasMark_osc (w := w) hq.1 (terminator_escs k he w) (hasMark_escs he hb), ne_eq,
        hq.finish, not_not, List.nil_append]

/-- Fed any text, a parser reports nothing exactly when no mark is in the text, what it already
read of it included. -/
theorem Pending.feed {p : OscParser} {t : List UInt8} (h : p.Pending t) (w : List UInt8) :
    (p.feed w).1 = [] ↔ ¬ HasMark (t ++ w) := by
  induction w generalizing p t with
  | nil => simpa using h.not_hasMark
  | cons b w ih =>
    obtain ⟨t', ht', -, hmark⟩ := h.step b
    rw [feed_cons, List.append_eq_nil_iff, ih ht', hmark]
    tauto

/-- What is open is the last of what was read. -/
theorem Pending.feed_suffix {p : OscParser} {t : List UInt8} (h : p.Pending t) (w : List UInt8) :
    ∃ t', (p.feed w).2.Pending t' ∧ t' <:+ t ++ w := by
  induction w generalizing p t with
  | nil => exact ⟨t, h, by simp⟩
  | cons b w ih =>
    obtain ⟨t₁, h₁, hs₁, -⟩ := h.step b
    obtain ⟨t₂, h₂, hs₂⟩ := ih h₁
    refine ⟨t₂, h₂, hs₂.trans ?_⟩
    rw [List.append_cons]
    exact List.suffix_append_self_iff.2 hs₁

theorem feed_eq_nil_iff (w : List UInt8) : (new.feed w).1 = [] ↔ ¬ HasMark w :=
  Pending.feed (.ground rfl) w

end OscParser

end BuilderPro
