import BuilderPro.Lib.Utf8

/-!
# Lossy decoding

Bytes are read as text whatever they are: what begins no character is replaced, one `U+FFFD` for
each maximal beginning of a character (`decodeLossy`).  The text reads back as the bytes exactly if
they were UTF-8 (`bytes_decodeLossy`).
-/

namespace Utf8

/-- The character some bytes begin with. -/
def firstChar (l : List UInt8) : Option Char := ByteArray.utf8DecodeChar? ⟨l.toArray⟩ 0

def isTail (b : UInt8) : Bool := 0x80 ≤ b ∧ b ≤ 0xBF

/-- Whether a byte may come second in a character of three or four bytes. -/
def isSecond (lead b : UInt8) : Bool :=
  if lead = 0xE0 then 0xA0 ≤ b ∧ b ≤ 0xBF
  else if lead = 0xED then 0x80 ≤ b ∧ b ≤ 0x9F
  else if lead = 0xF0 then 0x90 ≤ b ∧ b ≤ 0xBF
  else if lead = 0xF4 then 0x80 ≤ b ∧ b ≤ 0x8F
  else 0xE1 ≤ lead ∧ lead ≤ 0xF3 ∧ isTail b

/-- How much of what begins no character is replaced at once. -/
def brokenLen (l : List UInt8) : ℕ :=
  if isSecond (l.getD 0 0) (l.getD 1 0) then
    if 0xF0 ≤ l.getD 0 0 ∧ isTail (l.getD 2 0) then 3 else 2
  else 1

/-- The characters after so many bytes. -/
def lossyFrom : ℕ → List UInt8 → List Char
  | _, [] => []
  | k + 1, _ :: l => lossyFrom k l
  | 0, b :: l =>
    match firstChar (b :: l) with
    | some c => c :: lossyFrom (c.utf8Size - 1) l
    | none => '\uFFFD' :: lossyFrom (brokenLen (b :: l) - 1) l

/-- `String::from_utf8_lossy`. -/
def decodeLossy (l : List UInt8) : String := String.ofList (lossyFrom 0 l)

theorem firstChar_encode (c : Char) (l : List UInt8) :
    firstChar (String.utf8EncodeChar c ++ l) = some c := by
  have happ : (⟨(String.utf8EncodeChar c ++ l).toArray⟩ : ByteArray)
      = (String.utf8EncodeChar c).toByteArray ++ ⟨l.toArray⟩ := by
    ext1
    simp
  rw [firstChar, happ, ByteArray.utf8DecodeChar?_utf8EncodeChar_append]

theorem lossyFrom_drop (k : ℕ) (l : List UInt8) : lossyFrom k l = lossyFrom 0 (l.drop k) := by
  induction k generalizing l with
  | zero => rw [List.drop_zero]
  | succ k ih =>
    rcases l with _ | ⟨b, l⟩
    · simp [lossyFrom]
    · rw [lossyFrom, ih, List.drop_succ_cons]

theorem lossyFrom_encode (c : Char) (l : List UInt8) :
    lossyFrom 0 (String.utf8EncodeChar c ++ l) = c :: lossyFrom 0 l := by
  have hlen : (String.utf8EncodeChar c).length = c.utf8Size := String.length_utf8EncodeChar c
  have hchar := firstChar_encode c l
  rcases hl : String.utf8EncodeChar c with _ | ⟨b, m⟩
  · have hpos := c.utf8Size_pos
    rw [hl, List.length_nil] at hlen
    omega
  · rw [hl, List.length_cons] at hlen
    rw [hl] at hchar
    rw [List.cons_append] at hchar ⊢
    have hskip : (m ++ l).drop (c.utf8Size - 1) = l := by
      rw [← hlen, Nat.add_sub_cancel, List.drop_left]
    simp only [lossyFrom, hchar]
    rw [lossyFrom_drop, hskip]

@[simp] theorem decodeLossy_bytes (s : String) : decodeLossy (bytes s) = s := by
  have hlossy : ∀ cs : List Char, lossyFrom 0 (cs.flatMap String.utf8EncodeChar) = cs := by
    intro cs
    induction cs with
    | nil => rw [List.flatMap_nil, lossyFrom]
    | cons c cs ih => rw [List.flatMap_cons, lossyFrom_encode, ih]
  rw [decodeLossy, bytes_eq, hlossy, String.ofList_toList]

theorem decodeLossy_of_decode {l : List UInt8} {s : String} (h : decode l = some s) :
    decodeLossy l = s := by
  rw [← decode_eq_some.1 h, decodeLossy_bytes]

/-- Nothing was replaced exactly in what is UTF-8. -/
theorem bytes_decodeLossy {l : List UInt8} :
    bytes (decodeLossy l) = l ↔ (decode l).isSome = true := by
  rw [Option.isSome_iff_exists]
  constructor
  · exact fun h => ⟨_, decode_eq_some.2 h⟩
  · rintro ⟨s, hs⟩
    rw [decodeLossy_of_decode hs, decode_eq_some.1 hs]

theorem isSome_decode_of_ascii {l : List UInt8} (h : ∀ b ∈ l, b.toNat < 128) :
    (decode l).isSome = true := by
  unfold decode String.fromUTF8?
  rw [dif_pos (isValidUTF8_of_ascii h)]
  rfl

/-- Bytes from `0xF8` on are in no text. -/
theorem lt_of_mem_bytes {s : String} {b : UInt8} (h : b ∈ bytes s) : b.toNat < 0xF8 := by
  rw [bytes_eq, List.mem_flatMap] at h
  obtain ⟨c, -, hb⟩ := h
  simp only [String.utf8EncodeChar] at hb
  split_ifs at hb
  all_goals
    simp only [List.mem_cons, List.not_mem_nil, or_false] at hb
    rcases hb with rfl | rfl | rfl | rfl
  all_goals
    simp only [UInt8.toNat_ofNat']
    omega

end Utf8
