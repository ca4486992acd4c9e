import BuilderPro.Lib.Utf8
import BuilderPro.Sessiond.CommandHistory

/-!
# What an OSC is read as

Whatever the tokenizer has read, an OSC after it is read whole (`feed_osc_after`): what was open
gives its own event, if any, and nothing of it is left in the buffer or the overflow flag.  Of the
payloads of OSC 133, `parse_133` reads more than the grammar `133 ; <letter> [ ; <args> ]` allows,
and `parse_133`'s number may carry a sign.
-/

namespace BuilderPro

namespace OscParser

/-! ## An OSC after any text -/

/-- Text read in chunks. -/
def feedChunks (p : OscParser) : List (List UInt8) → List OscEvent × OscParser
  | [] => ([], p)
  | c :: cs => ((p.feed c).1 ++ ((p.feed c).2.feedChunks cs).1, ((p.feed c).2.feedChunks cs).2)

theorem feedChunks_eq (p : OscParser) (cs : List (List UInt8)) :
    p.feedChunks cs = p.feed cs.flatten := by
  induction cs generalizing p with
  | nil => rfl
  | cons c cs ih => rw [feedChunks, List.flatten_cons, feed_append, ih]

/-- `w` ends in an OSC with payload `q` that nothing has closed. -/
def EndsOpen (w q : List UInt8) : Prop :=
  (∀ b ∈ q, b ≠ esc ∧ b ≠ bel) ∧
    ∃ v k, w = v ++ esc :: ch ']' :: (q ++ List.replicate k esc)

theorem Buffers.of_mem {p : OscParser} {q : List UInt8} (h : p.Buffers q) {ev : OscEvent}
    (hev : ev ∈ p.finishOsc.1) : parseOscPayload q = some ev := by
  obtain ⟨-, hb⟩ := h
  unfold finishOsc at hev
  split_ifs at hb hev with ho
  · simp at hev
  · simpa [hb.1] using hev

theorem finishOsc_length (p : OscParser) : p.finishOsc.1.length ≤ 1 := by
  unfold finishOsc
  split_ifs
  · simp
  · rcases parseOscPayload p.buf <;> simp

/-- Where the parser stands does not matter to what it closes. -/
theorem finishOsc_state (p : OscParser) (s : State) :
    finishOsc { p with state := s } = (p.finishOsc.1, { p.finishOsc.2 with state := s }) := by
  unfold finishOsc
  split_ifs <;> rfl

/-- `ESC ]` begins an OSC in any state; what it closes was open. -/
theorem Pending.introduce {p : OscParser} {t w : List UInt8} (h : p.Pending t) (ht : t <:+ w) :
    ∃ left, left.length ≤ 1 ∧ (∀ ev ∈ left, ∃ q, EndsOpen w q ∧ parseOscPayload q = some ev) ∧
      p.feed [esc, ch ']'] = (left, ⟨.osc, [], false⟩) := by
  obtain ⟨v, rfl⟩ := ht
  cases h with
  | ground h =>
    refine ⟨[], by simp, by simp, ?_⟩
    rw [feed_cons, step_ground_esc h, feed_cons, step_escape_osc rfl]
    rfl
  | escape h =>
    refine ⟨[], by simp, by simp, ?_⟩
    rw [feed_cons, step_escape_esc h, feed_cons, step_escape_osc rfl]
    rfl
  | @osc q h hq =>
    refine ⟨p.finishOsc.1, finishOsc_length p, fun ev hev => ⟨q, ⟨hq.1, v, 0, ?_⟩,
      hq.of_mem hev⟩, ?_⟩
    · simp
    · rw [feed_cons, step_osc_esc h, feed_cons, step_oscEsc_osc rfl, finishOsc_state]
      simp
  | @oscEsc q k h hq =>
    refine ⟨p.finishOsc.1, finishOsc_length p, fun ev hev => ⟨q, ⟨hq.1, v, k + 1, rfl⟩,
      hq.of_mem hev⟩, ?_⟩
    rw [feed_cons, step_oscEsc_esc h, feed_cons, step_oscEsc_osc rfl, finishOsc_state]
    simp

/-- Past the cap nothing is kept, but the flag. -/
theorem feed_overflowed {q : List UInt8} (hq : ∀ b ∈ q, b ≠ esc ∧ b ≠ bel) :
    feed ⟨.osc, [], true⟩ q = ([], ⟨.osc, [], true⟩) := by
  induction q with
  | nil => rfl
  | cons b q ih =>
    obtain ⟨he, hb⟩ := hq b List.mem_cons_self
    rw [feed_cons, step_osc rfl hb he, pushOscByte, if_pos rfl,
      ih fun c hc => hq c (List.mem_cons_of_mem _ hc)]
    rfl

/-- A payload longer than the cap is dropped at its byte past it. -/
theorem feed_long_payload {q : List UInt8} (hq : ∀ b ∈ q, b ≠ esc ∧ b ≠ bel)
    (hlen : oscBufCap < q.length) :
    feed ⟨.osc, [], false⟩ q = ([], ⟨.osc, [], true⟩) := by
  obtain ⟨b, r, hr⟩ : ∃ b r, q.drop oscBufCap = b :: r := by
    rcases h : q.drop oscBufCap with _ | ⟨b, r⟩
    · have := List.drop_eq_nil_iff.1 h
      omega
    · exact ⟨b, r, rfl⟩
  have hmem : ∀ c ∈ b :: r, c ∈ q := fun c hc => List.mem_of_mem_drop (hr ▸ hc)
  have htake : (q.take oscBufCap).length = oscBufCap := by
    rw [List.length_take]
    omega
  obtain ⟨he, hb⟩ := hq b (hmem b List.mem_cons_self)
  have hpush : pushOscByte ⟨.osc, q.take oscBufCap, false⟩ b = ⟨.osc, [], true⟩ := by
    simp [pushOscByte, htake]
  have hfull : feed ⟨.osc, [], false⟩ (q.take oscBufCap)
      = ([], ⟨.osc, q.take oscBufCap, false⟩) :=
    feed_payload (fun c hc => hq c (List.mem_of_mem_take hc)) (by simp [htake])
  have hrest : feed ⟨.osc, q.take oscBufCap, false⟩ (b :: r) = ([], ⟨.osc, [], true⟩) := by
    rw [feed_cons, step_osc rfl hb he, hpush,
      feed_overflowed fun c hc => hq c (hmem c (List.mem_cons_of_mem _ hc))]
    rfl
  rw [← List.take_append_drop oscBufCap q, hr, feed_append, hfull, hrest]
  rfl

/-- BEL or `ESC \` ends an OSC, and the parser is as it was made. -/
theorem feed_terminator (p : OscParser) (h : p.state = .osc) {t : List UInt8}
    (ht : t = [bel] ∨ t = [esc, ch '\\']) : p.feed t = (p.finishOsc.1, new) := by
  have hnew : ({ p.finishOsc.2 with state := .ground } : OscParser) = new := by
    show OscParser.mk .ground p.finishOsc.2.buf p.finishOsc.2.overflowed = new
    rw [(finishOsc_snd p).1, (finishOsc_snd p).2, new]
  rcases ht with rfl | rfl
  · rw [feed_cons, step_osc_bel h, hnew]
    simp
  · rw [feed_cons, step_osc_esc h, feed_cons, step_oscEsc rfl (by decide) (by decide)]
    rw [finishOsc_state]
    simpa using hnew

/-- After any text, in any chunks, an OSC gives the event of its own payload and no other; before
it at most the event of an OSC the text had left open; and the parser is as it was made. -/
theorem feed_osc_after (chunks : List (List UInt8)) {q t : List UInt8}
    (hq : ∀ b ∈ q, b ≠ esc ∧ b ≠ bel) (ht : t = [bel] ∨ t = [esc, ch '\\']) :
    ∃ left, left.length ≤ 1 ∧
      (∀ ev ∈ left, ∃ o, EndsOpen chunks.flatten o ∧ parseOscPayload o = some ev) ∧
      (new.feedChunks chunks).2.feed (esc :: ch ']' :: (q ++ t))
        = (left ++ if q.length ≤ oscBufCap then (parseOscPayload q).toList else [], new) := by
  obtain ⟨r, hr, hsuf⟩ := Pending.feed_suffix (.ground (p := new) rfl) chunks.flatten
  obtain ⟨left, hone, hleft, hintro⟩ := hr.introduce hsuf
  refine ⟨left, hone, hleft, ?_⟩
  rw [feedChunks_eq, show esc :: ch ']' :: (q ++ t) = [esc, ch ']'] ++ (q ++ t) from rfl,
    feed_append, hintro, feed_append]
  by_cases hlen : q.length ≤ oscBufCap
  · rw [feed_payload hq (by simpa using hlen), feed_terminator _ rfl ht, if_pos hlen]
    simp [finishOsc]
  · rw [feed_long_payload hq (by omega), feed_terminator _ rfl ht, if_neg hlen]
    simp [finishOsc]

/-- A cut escape, then an OSC left open in two chunks, then a prompt's mark. -/
theorem feed_osc_after_forged :
    ∃ left, left.length ≤ 1 ∧
      (∀ ev ∈ left, ∃ o, EndsOpen [[esc, esc], [ch ']', ch '9'], [esc]].flatten o ∧
        parseOscPayload o = some ev) ∧
      (new.feedChunks [[esc, esc], [ch ']', ch '9'], [esc]]).2.feed
          (esc :: ch ']' :: (ascii ['1', '3', '3', ';', 'A'] ++ [bel]))
        = (left ++ if (ascii ['1', '3', '3', ';', 'A']).length ≤ oscBufCap then
            (parseOscPayload (ascii ['1', '3', '3', ';', 'A'])).toList else [], new) :=
  feed_osc_after _ (plain_of_all (by decide)) (.inl rfl)


/-! ## The grammar of OSC 133 -/

def isDigit (b : UInt8) : Bool := ch '0' ≤ b && b ≤ ch '9'

/-- The value of a string of decimal digits, after what came before it. -/
def digitsVal (n : ℕ) (digits : List UInt8) : ℕ :=
  digits.foldl (fun n b => n * 10 + (b.toNat - (ch '0').toNat)) n

/-- The first field of the arguments: up to the next `;`. -/
def firstField (args : List UInt8) : List UInt8 := args.takeWhile (· != ch ';')

/-- A known exit code: digits only, at least one, within a byte. -/
def IsCode (field : List UInt8) : Prop :=
  field ≠ [] ∧ field.all isDigit ∧ digitsVal 0 field ≤ 255

instance (field : List UInt8) : Decidable (IsCode field) := by
  unfold IsCode
  infer_instance

def codeOf (field : List UInt8) : Option UInt8 :=
  if IsCode field then some (UInt8.ofNat (digitsVal 0 field)) else none

/-- The exit code of the bytes after the letter, as documented. -/
def documentedCode : List UInt8 → Option UInt8
  | [] => none
  | _ :: args => codeOf (firstField args)

def letterEvent (letter : UInt8) (code : Option UInt8) : Option OscEvent :=
  if letter = ch 'A' then some .promptStart
  else if letter = ch 'B' then some .promptEnd
  else if letter = ch 'C' then some .commandStart
  else if letter = ch 'D' then some (.commandEnd code)
  else none

/-- The payload is `133 ; <letter> [ ; <args> ]`, and `ev` is what it stands for. -/
def Documented133 (p : List UInt8) (ev : OscEvent) : Prop :=
  ∃ letter args, p = ascii ['1', '3', '3', ';'] ++ letter :: args ∧
    (args = [] ∨ args.head? = some (ch ';')) ∧
    letterEvent letter (documentedCode args) = some ev

/-- The payload is read as its grammar has it. -/
def ReadAsDocumented (p : List UInt8) : Prop :=
  ∀ ev, (∀ path, ev ≠ .cwd path) → (parseOscPayload p = some ev ↔ Documented133 p ev)

/-- A letter followed by a byte that is no separator. -/
def NoSeparator (p : List UInt8) : Prop :=
  ∃ letter ∈ ascii ['A', 'B', 'C', 'D'], ∃ b rest, b ≠ ch ';' ∧
    p = ascii ['1', '3', '3', ';'] ++ letter :: b :: rest

/-- An exit code behind a plus sign. -/
def SignedCode (p : List UInt8) : Prop :=
  ∃ args, IsCode (firstField args) ∧
    p = ascii ['1', '3', '3', ';', 'D', ';', '+'] ++ args

theorem isDigit_iff {b : UInt8} : isDigit b = true ↔ 48 ≤ b.toNat ∧ b.toNat ≤ 57 := by
  rw [isDigit, Bool.and_eq_true, decide_eq_true_iff, decide_eq_true_iff, UInt8.le_iff_toNat_le,
    UInt8.le_iff_toNat_le, show (ch '0').toNat = 48 by decide, show (ch '9').toNat = 57 by decide]

theorem digitsVal_cons (n : ℕ) (b : UInt8) (l : List UInt8) :
    digitsVal n (b :: l) = digitsVal (n * 10 + (b.toNat - (ch '0').toNat)) l := by
  rw [digitsVal, List.foldl_cons, digitsVal]

theorem le_digitsVal (n : ℕ) (l : List UInt8) : n ≤ digitsVal n l := by
  induction l generalizing n with
  | nil => exact le_rfl
  | cons b l ih =>
    have := ih (n * 10 + (b.toNat - (ch '0').toNat))
    rw [digitsVal_cons]
    omega

/-- The digits read one at a time, given up at the first that overflows. -/
def readDigits (n : ℕ) (digits : List UInt8) : Option ℕ :=
  digits.foldlM (fun n b =>
    if ch '0' ≤ b ∧ b ≤ ch '9' then
      let m := n * 10 + (b.toNat - (ch '0').toNat)
      if m < UInt32.size then some m else none
    else none) n

theorem readDigits_cons (n : ℕ) (b : UInt8) (l : List UInt8) :
    readDigits n (b :: l) = if isDigit b then
      if n * 10 + (b.toNat - (ch '0').toNat) < UInt32.size
        then readDigits (n * 10 + (b.toNat - (ch '0').toNat)) l else none
      else none := by
  rw [readDigits, List.foldlM_cons, isDigit]
  simp only [Bool.and_eq_true, decide_eq_true_eq]
  split_ifs <;> rfl

/-- An overflow on the way is one at the end. -/
theorem readDigits_eq {n : ℕ} (hn : n < UInt32.size) (l : List UInt8) :
    readDigits n l = if l.all isDigit ∧ digitsVal n l < UInt32.size
      then some (digitsVal n l) else none := by
  induction l generalizing n with
  | nil => simp [readDigits, digitsVal, hn]
  | cons b l ih =>
    rw [readDigits_cons, List.all_cons, digitsVal_cons]
    by_cases hb : isDigit b
    · rw [if_pos hb, hb, Bool.true_and]
      have hle := le_digitsVal (n * 10 + (b.toNat - (ch '0').toNat)) l
      by_cases hlt : n * 10 + (b.toNat - (ch '0').toNat) < UInt32.size
      · rw [if_pos hlt, ih hlt]
      · rw [if_neg hlt, if_neg fun h => hlt (hle.trans_lt h.2)]
    · rw [if_neg hb, if_neg]
      simp [hb]

/-- The field without its plus sign. -/
def dropSign : List UInt8 → List UInt8
  | b :: bs => if b = ch '+' then bs else b :: bs
  | [] => []

theorem parseU32_eq (field : List UInt8) :
    parseU32 field = if dropSign field = [] then none else readDigits 0 (dropSign field) := by
  rcases field with _ | ⟨b, bs⟩
  · rfl
  · by_cases hb : b = ch '+'
    · subst hb
      rcases bs with _ | ⟨c, bs⟩
      · decide
      · simp [parseU32, dropSign, readDigits]
    · simp [parseU32, dropSign, hb, readDigits]

theorem fromUtf8_of_ascii {l : List UInt8} (h : ∀ b ∈ l, b.toNat < 128) :
    ∃ s, fromUtf8 l = some s :=
  ⟨_, dif_pos (Utf8.isValidUTF8_of_ascii h)⟩

theorem mem_dropSign {f : List UInt8} {b : UInt8} (h : b ∈ f) : b = ch '+' ∨ b ∈ dropSign f := by
  rcases f with _ | ⟨c, cs⟩
  · simp at h
  · rw [dropSign]
    split_ifs with hc
    · rcases List.mem_cons.1 h with rfl | h
      · exact .inl hc
      · exact .inr h
    · exact .inr h

theorem IsCode.ascii {f : List UInt8} (h : IsCode (dropSign f)) : ∀ b ∈ f, b.toNat < 128 := by
  intro b hb
  rcases mem_dropSign hb with rfl | hb
  · decide
  · have := isDigit_iff.1 (List.all_eq_true.1 h.2.1 b hb)
    omega

theorem parseU32_code (field : List UInt8) :
    ((parseU32 field).bind fun n => if n ≤ 255 then some (UInt8.ofNat n) else none)
      = codeOf (dropSign field) := by
  have hsize : UInt32.size = 4294967296 := rfl
  rw [parseU32_eq, codeOf]
  by_cases hnil : dropSign field = []
  · rw [if_pos hnil, if_neg fun h => h.1 hnil]
    rfl
  rw [if_neg hnil, readDigits_eq (by omega)]
  by_cases hcode : IsCode (dropSign field)
  · have hlt : digitsVal 0 (dropSign field) < UInt32.size := by
      have := hcode.2.2
      omega
    rw [if_pos ⟨hcode.2.1, hlt⟩, if_pos hcode, Option.bind_some, if_pos hcode.2.2]
  · rw [if_neg hcode]
    by_cases hdigits : (dropSign field).all isDigit ∧ digitsVal 0 (dropSign field) < UInt32.size
    · rw [if_pos hdigits, Option.bind_some, if_neg fun h => hcode ⟨hnil, hdigits.1, h⟩]
    · rw [if_neg hdigits, Option.bind_none]

/-- The code read from the first field, its sign overlooked. -/
theorem parseExitCode_eq (args : List UInt8) :
    parseExitCode (ch ';' :: args) = codeOf (dropSign (firstField args)) := by
  have hpre : [ch ';'].isPrefixOf? (ch ';' :: args) = some args := by simp [List.isPrefixOf?]
  rw [parseExitCode, hpre, Option.bind_eq_bind, Option.bind_some, ← firstField]
  by_cases hnil : firstField args = []
  · rw [if_pos hnil, hnil]
    rfl
  rw [if_neg hnil, ← parseU32_code]
  by_cases hcode : IsCode (dropSign (firstField args))
  · obtain ⟨s, hs⟩ := fromUtf8_of_ascii hcode.ascii
    rw [hs]
    rfl
  · have hnone := parseU32_code (firstField args)
    rw [codeOf, if_neg hcode] at hnone
    rw [hnone]
    rcases fromUtf8 (firstField args) with _ | s
    · rfl
    · exact hnone

theorem not_isCode_plus (g : List UInt8) : ¬ IsCode (ch '+' :: g) := by
  intro h
  have := (List.all_eq_true.1 h.2.1) (ch '+') List.mem_cons_self
  revert this
  decide

theorem codeOf_dropSign {f : List UInt8} (h : ∀ g, IsCode g → f ≠ ch '+' :: g) :
    codeOf (dropSign f) = codeOf f := by
  rcases f with _ | ⟨b, g⟩
  · rfl
  by_cases hb : b = ch '+'
  · have hg : ¬ IsCode g := fun hg => h g hg (by rw [hb])
    rw [dropSign, if_pos hb, codeOf, codeOf, if_neg hg, hb, if_neg (not_isCode_plus g)]
  · rw [dropSign, if_neg hb]

theorem firstField_plus (args : List UInt8) :
    firstField (ch '+' :: args) = ch '+' :: firstField args :=
  List.takeWhile_cons_of_pos (by decide)

/-- A field that begins with a plus sign is the sign and the field after it. -/
theorem eq_plus_of_firstField {args g : List UInt8} (h : firstField args = ch '+' :: g) :
    ∃ rest, args = ch '+' :: rest ∧ firstField rest = g := by
  rcases args with _ | ⟨b, rest⟩
  · simp [firstField] at h
  · by_cases hb : b = ch ';'
    · rw [firstField, List.takeWhile_cons_of_neg (by simp [hb])] at h
      simp at h
    · rw [firstField, List.takeWhile_cons_of_pos (by simpa using hb), List.cons.injEq] at h
      exact ⟨rest, by rw [h.1], h.2⟩

theorem parse133_cons (letter : UInt8) (args : List UInt8) :
    parse133 (letter :: args) = letterEvent letter (parseExitCode args) := rfl

theorem parseOscPayload_133 (rest : List UInt8) :
    parseOscPayload (ascii ['1', '3', '3', ';'] ++ rest) = parse133 rest := by
  have hpre : (ascii ['1', '3', '3', ';']).isPrefixOf? (ascii ['1', '3', '3', ';'] ++ rest)
      = some rest := by simp [ascii, List.isPrefixOf?]
  rw [parseOscPayload, hpre]

/-- The letters that stand for an event stand for no working directory. -/
theorem letterEvent_eq_some {letter : UInt8} {code : Option UInt8} {ev : OscEvent}
    (h : letterEvent letter code = some ev) :
    letter ∈ ascii ['A', 'B', 'C', 'D'] ∧ ∀ path, ev ≠ .cwd path := by
  unfold letterEvent at h
  split_ifs at h with ha hb hc hd
  all_goals
    obtain rfl := Option.some.inj h
    refine ⟨?_, fun path hp => by cases hp⟩
  · simp [ascii, ha]
  · simp [ascii, hb]
  · simp [ascii, hc]
  · simp [ascii, hd]

theorem letterEvent_of_mem {letter : UInt8} (h : letter ∈ ascii ['A', 'B', 'C', 'D'])
    (code : Option UInt8) : ∃ ev, letterEvent letter code = some ev := by
  simp only [ascii, List.map_cons, List.map_nil, List.mem_cons, List.not_mem_nil, or_false] at h
  unfold letterEvent
  split_ifs with ha hb hc hd
  · exact ⟨_, rfl⟩
  · exact ⟨_, rfl⟩
  · exact ⟨_, rfl⟩
  · exact ⟨_, rfl⟩
  · tauto

/-- Only D's event carries the code. -/
theorem letterEvent_of_ne {letter : UInt8} (h : letter ≠ ch 'D') (c c' : Option UInt8) :
    letterEvent letter c = letterEvent letter c' := by
  unfold letterEvent
  rw [if_neg h, if_neg h]

/-- Other payloads than those of OSC 133 give a working directory or nothing. -/
theorem parseOscPayload_other {p : List UInt8} {ev : OscEvent}
    (hp : ∀ rest, p ≠ ascii ['1', '3', '3', ';'] ++ rest) (h : parseOscPayload p = some ev) :
    ∃ path, ev = .cwd path := by
  unfold parseOscPayload at h
  split at h
  · rename_i rest hr
    exact (hp rest (eq_append_of_isPrefixOf? hr)).elim
  · split at h
    · exact parseOsc7_cwd h
    · simp at h

/-- With a separator, and no sign before the code, a letter's arguments are read as documented. -/
theorem letterEvent_documented {letter : UInt8} {args : List UInt8}
    (hsep : args = [] ∨ args.head? = some (ch ';'))
    (hsign : ¬ SignedCode (ascii ['1', '3', '3', ';'] ++ letter :: args)) :
    letterEvent letter (parseExitCode args) = letterEvent letter (documentedCode args) := by
  by_cases hd : letter = ch 'D'
  · rcases args with _ | ⟨b, args⟩
    · rfl
    obtain rfl : b = ch ';' := by simpa using hsep
    rw [parseExitCode_eq, documentedCode, codeOf_dropSign]
    intro g hg hf
    obtain ⟨rest, rfl, rfl⟩ := eq_plus_of_firstField hf
    exact hsign ⟨rest, hg, by rw [hd]; rfl⟩
  · exact letterEvent_of_ne hd _ _

theorem NoSeparator.misread {p : List UInt8} (h : NoSeparator p) : ¬ ReadAsDocumented p := by
  obtain ⟨letter, hletter, b, rest, hb, rfl⟩ := h
  intro hdoc
  obtain ⟨ev, hev⟩ := letterEvent_of_mem hletter (parseExitCode (b :: rest))
  obtain ⟨l, args, heq, hsep, -⟩ := (hdoc ev (letterEvent_eq_some hev).2).1
    (by rw [parseOscPayload_133, parse133_cons, hev])
  rw [List.append_cancel_left_eq, List.cons.injEq] at heq
  rw [← heq.2] at hsep
  simp [hb] at hsep

/-- The sign is overlooked, and the code behind it reported. -/
theorem SignedCode.read {args : List UInt8} (h : IsCode (firstField args)) :
    parseOscPayload (ascii ['1', '3', '3', ';', 'D', ';', '+'] ++ args)
      = some (.commandEnd (some (UInt8.ofNat (digitsVal 0 (firstField args))))) := by
  show parseOscPayload (ascii ['1', '3', '3', ';'] ++ ch 'D' :: ch ';' :: ch '+' :: args) = _
  rw [parseOscPayload_133, parse133_cons, parseExitCode_eq, firstField_plus, dropSign, if_pos rfl,
    codeOf, if_pos h]
  rfl

theorem SignedCode.misread {p : List UInt8} (h : SignedCode p) : ¬ ReadAsDocumented p := by
  obtain ⟨args, hcode, rfl⟩ := h
  intro hdoc
  obtain ⟨l, args', heq, -, hev⟩ := (hdoc _ (fun path hp => by cases hp)).1
    (SignedCode.read hcode)
  have heq : ascii ['1', '3', '3', ';'] ++ ch 'D' :: ch ';' :: ch '+' :: args
      = ascii ['1', '3', '3', ';'] ++ l :: args' := heq
  have hd : ∀ code, letterEvent (ch 'D') code = some (.commandEnd code) := fun code => rfl
  rw [List.append_cancel_left_eq, List.cons.injEq] at heq
  rw [← heq.1, ← heq.2, hd, documentedCode, firstField_plus, codeOf,
    if_neg (not_isCode_plus _)] at hev
  simp at hev

/-- The parser reads a payload as its grammar has it, unless a byte that is no separator follows
the letter or a plus sign stands before a known exit code. -/
theorem readAsDocumented_iff (p : List UInt8) :
    ReadAsDocumented p ↔ ¬ NoSeparator p ∧ ¬ SignedCode p := by
  constructor
  · intro h
    exact ⟨fun hsep => hsep.misread h, fun hsign => hsign.misread h⟩
  · rintro ⟨hsep, hsign⟩ ev hev
    by_cases hp : ∃ rest, p = ascii ['1', '3', '3', ';'] ++ rest
    · obtain ⟨rest, rfl⟩ := hp
      rw [parseOscPayload_133]
      rcases rest with _ | ⟨letter, args⟩
      · simp [parse133, Documented133]
      rw [parse133_cons]
      constructor
      · intro h
        have hargs : args = [] ∨ args.head? = some (ch ';') := by
          by_contra hno
          rcases args with _ | ⟨b, args⟩
          · simp at hno
          · exact hsep ⟨letter, (letterEvent_eq_some h).1, b, args, by simpa using hno, rfl⟩
        exact ⟨letter, args, rfl, hargs, by rw [← h, letterEvent_documented hargs hsign]⟩
      · rintro ⟨l, args', heq, hargs, h⟩
        rw [List.append_cancel_left_eq, List.cons.injEq] at heq
        obtain ⟨rfl, rfl⟩ := heq
        rw [letterEvent_documented hargs hsign, h]
    · rw [not_exists] at hp
      constructor
      · intro h
        obtain ⟨path, rfl⟩ := parseOscPayload_other hp h
        exact (hev path rfl).elim
      · rintro ⟨l, args, heq, -⟩
        exact (hp _ heq).elim

/-- `133;Axyz` is no mark of the grammar, yet a prompt starts; `133;D;+7` has no known code, yet
7 is reported. -/
theorem phantom_events :
    ¬ ReadAsDocumented (ascii ['1', '3', '3', ';', 'A', 'x', 'y', 'z']) ∧
    parseOscPayload (ascii ['1', '3', '3', ';', 'A', 'x', 'y', 'z']) = some .promptStart ∧
    ¬ ReadAsDocumented (ascii ['1', '3', '3', ';', 'D', ';', '+', '7']) ∧
    parseOscPayload (ascii ['1', '3', '3', ';', 'D', ';', '+', '7'])
      = some (.commandEnd (some 7)) := by
  have hsep : NoSeparator (ascii ['1', '3', '3', ';', 'A', 'x', 'y', 'z']) :=
    ⟨ch 'A', by decide, ch 'x', ascii ['y', 'z'], by decide, rfl⟩
  have hcode : IsCode (firstField (ascii ['7'])) := by decide
  exact ⟨hsep.misread, rfl, SignedCode.misread ⟨_, hcode, rfl⟩, SignedCode.read hcode⟩

end OscParser

end BuilderPro
