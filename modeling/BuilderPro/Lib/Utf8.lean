import Mathlib.Data.List.Basic

/-!
# Text as bytes

The UTF-8 bytes of a string.  A byte below 128 stands for its own character and for no part of
another (`mem_bytes`), so a text may be cut at such a byte.
-/

namespace Utf8

/-! ## A list cut at a separator -/

section Cut

variable {α : Type*} [DecidableEq α] {a : α} {l r : List α}

/-- What is before the first `a`, and what is after it. -/
def cut (a : α) (l : List α) : List α × List α :=
  (l.takeWhile (· != a), (l.dropWhile (· != a)).tail)

theorem cut_append (h : a ∉ l) : cut a (l ++ a :: r) = (l, r) := by
  have hl : ∀ b ∈ l, (b != a) = true := by
    intro b hb
    rw [bne_iff_ne]
    rintro rfl
    exact h hb
  rw [cut, List.takeWhile_append_of_pos hl, List.dropWhile_append_of_pos hl]
  simp

end Cut

/-! ## Byte arrays as lists -/

theorem toList_loop (bs : ByteArray) (i : ℕ) (r : List UInt8) :
    ByteArray.toList.loop bs i r = r.reverse ++ bs.data.toList.drop i := by
  induction h : bs.size - i generalizing i r with
  | zero =>
    rw [ByteArray.toList.loop, if_neg (by omega), List.drop_eq_nil_of_le, List.append_nil]
    rw [Array.length_toList]
    exact Nat.le_of_sub_eq_zero h
  | succ n ih =>
    have hi : i < bs.data.toList.length := by
      rw [Array.length_toList]
      exact Nat.lt_of_sub_pos (by rw [ByteArray.size_data]; omega)
    rw [ByteArray.toList.loop, if_pos (by omega), ih _ _ (by omega), List.reverse_cons,
      List.append_assoc, List.drop_eq_getElem_cons hi]
    have hget : bs.get! i = bs.data.toList[i] := by
      rw [Array.getElem_toList]
      exact getElem!_pos bs.data i (by rwa [Array.length_toList] at hi)
    rw [hget]
    rfl

theorem toList_eq (bs : ByteArray) : bs.toList = bs.data.toList := toList_loop bs 0 []

/-! ## The bytes of a text -/

/-- A character's bytes: itself below 128, and none below 128 otherwise. -/
theorem encode_cases (c : Char) :
    (c.toNat < 128 ∧ String.utf8EncodeChar c = [UInt8.ofNat c.toNat]) ∨
      (128 ≤ c.toNat ∧ ∀ b ∈ String.utf8EncodeChar c, 128 ≤ b.toNat) := by
  have hv : c.val.toNat = c.toNat := rfl
  unfold String.utf8EncodeChar
  by_cases h : c.val.toNat ≤ 0x7f
  · left
    simp only [if_pos h]
    exact ⟨by omega, rfl⟩
  · right
    refine ⟨by omega, ?_⟩
    simp only [if_neg h]
    split_ifs
    all_goals
      simp only [List.mem_cons, List.not_mem_nil, or_false, forall_eq_or_imp, forall_eq,
        UInt8.toNat_ofNat']
      omega

def bytes (s : String) : List UInt8 := s.toUTF8.toList

theorem bytes_eq (s : String) : bytes s = s.toList.flatMap String.utf8EncodeChar := by
  have h : s.toUTF8 = (s.toList.flatMap String.utf8EncodeChar).toByteArray := by
    conv_lhs => rw [← String.ofList_toList (s := s)]
    exact String.toByteArray_ofList
  rw [bytes, h, toList_eq, List.toList_data_toByteArray]

theorem bytes_append (s t : String) : bytes (s ++ t) = bytes s ++ bytes t := by
  rw [bytes_eq, bytes_eq, bytes_eq, String.toList_append, List.flatMap_append]

theorem bytes_join (ss : List String) : bytes (String.join ss) = ss.flatMap bytes := by
  induction ss with
  | nil => rw [String.join_nil, bytes_eq]; rfl
  | cons s ss ih => rw [String.join_cons, bytes_append, ih, List.flatMap_cons]

theorem bytes_inj {s t : String} (h : bytes s = bytes t) : s = t := by
  rw [bytes, bytes, toList_eq, toList_eq, Array.toList_inj] at h
  exact String.toByteArray_inj.1 (ByteArray.ext h)

theorem length_bytes_replicate {c : Char} (hc : c.toNat < 128) (n : ℕ) :
    (bytes (String.ofList (List.replicate n c))).length = n := by
  rw [bytes_eq, String.toList_ofList]
  induction n with
  | zero => rfl
  | succ n ih =>
    rw [List.replicate_succ, List.flatMap_cons, List.length_append, ih]
    rcases encode_cases c with ⟨-, heq⟩ | ⟨hge, -⟩
    · rw [heq, List.length_singleton]
      omega
    · omega

theorem mem_bytes {c : Char} (hc : c.toNat < 128) {s : String} :
    UInt8.ofNat c.toNat ∈ bytes s ↔ c ∈ s.toList := by
  rw [bytes_eq, List.mem_flatMap]
  constructor
  · rintro ⟨d, hd, hmem⟩
    rcases encode_cases d with ⟨hlt, heq⟩ | ⟨-, hge⟩
    · rw [heq, List.mem_singleton] at hmem
      have h := congrArg UInt8.toNat hmem
      simp only [UInt8.toNat_ofNat'] at h
      obtain rfl : c = d := Char.ext (UInt32.toNat_inj.1 (by
        show c.toNat = d.toNat
        omega))
      exact hd
    · have h := hge _ hmem
      simp only [UInt8.toNat_ofNat'] at h
      omega
  · intro hmem
    refine ⟨c, hmem, ?_⟩
    rcases encode_cases c with ⟨-, heq⟩ | ⟨hge, -⟩
    · rw [heq, List.mem_singleton]
    · omega

theorem exists_split {c : Char} {s : String} (h : c ∈ s.toList) :
    ∃ x y : String, s = x ++ String.singleton c ++ y := by
  obtain ⟨l, r, hlr⟩ := List.append_of_mem h
  refine ⟨String.ofList l, String.ofList r, ?_⟩
  rw [← String.toList_inj, hlr]
  simp

/-- Where an ASCII byte stands a text can be cut. -/
theorem exists_bytes_append {s : String} {l r : List UInt8} {b : UInt8} (hb : b.toNat < 128)
    (h : bytes s = l ++ b :: r) : ∃ x y : String, bytes x = l ∧ bytes y = b :: r := by
  rw [bytes_eq] at h
  generalize s.toList = cs at h
  induction cs generalizing l with
  | nil => simp at h
  | cons c cs ih =>
    rw [List.flatMap_cons] at h
    rcases List.append_eq_append_iff.1 h with ⟨l', rfl, hrest⟩ | ⟨e, he, hrest⟩
    · obtain ⟨x, y, hx, hy⟩ := ih hrest
      refine ⟨String.ofList [c] ++ x, y, ?_, hy⟩
      rw [bytes_append, hx, bytes_eq, String.toList_ofList, List.flatMap_singleton]
    · rcases e with _ | ⟨d, e⟩
      · rw [List.append_nil] at he
        rw [List.nil_append] at hrest
        refine ⟨String.ofList [c], String.ofList cs, ?_, ?_⟩
        · rw [bytes_eq, String.toList_ofList, List.flatMap_singleton, he]
        · rw [bytes_eq, String.toList_ofList, ← hrest]
      · obtain ⟨rfl, -⟩ : d = b ∧ r = e ++ cs.flatMap String.utf8EncodeChar := by
          rw [List.cons_append, List.cons.injEq] at hrest
          exact ⟨hrest.1.symm, hrest.2⟩
        rcases encode_cases c with ⟨-, hone⟩ | ⟨-, hge⟩
        · -- the byte is the character's only one
          rw [hone] at he
          rcases l with _ | ⟨d', l⟩
          · refine ⟨"", String.ofList (c :: cs), by rw [bytes_eq]; rfl, ?_⟩
            rw [bytes_eq, String.toList_ofList, List.flatMap_cons, h, List.nil_append]
          · simp at he
        · have hle := hge d (by rw [he]; simp)
          omega

/-- The text of some bytes, where they are UTF-8. -/
def decode (l : List UInt8) : Option String := String.fromUTF8? ⟨l.toArray⟩

theorem decode_eq_some {l : List UInt8} {s : String} : decode l = some s ↔ bytes s = l := by
  unfold decode String.fromUTF8?
  constructor
  · intro h
    split_ifs at h with hl
    cases h
    rw [bytes, toList_eq]
    rfl
  · rintro rfl
    have hbytes : (⟨(bytes s).toArray⟩ : ByteArray) = s.toUTF8 := by
      rw [bytes, toList_eq, Array.toArray_toList]
    rw [hbytes]
    exact dif_pos s.isValidUTF8

/-- An ASCII byte is a character. -/
theorem exists_encode_eq {b : UInt8} (hb : b.toNat < 128) :
    ∃ c, String.utf8EncodeChar c = [b] := by
  have hchar : b.toUInt32.isValidChar := .inl (by
    rw [UInt8.toNat_toUInt32]
    omega)
  refine ⟨⟨b.toUInt32, hchar⟩, ?_⟩
  rw [String.utf8EncodeChar_eq_singleton, UInt8.toUInt8_toUInt32]
  rw [Char.utf8Size_eq_one_iff, UInt32.le_iff_toNat_le, UInt8.toNat_toUInt32]
  exact Nat.le_of_lt_succ hb

theorem isSome_decode {l : List UInt8} : (decode l).isSome = true ↔ ∃ s, bytes s = l := by
  rw [Option.isSome_iff_exists]
  simp only [decode_eq_some]

/-- What is cut at an ASCII byte is UTF-8 if both parts are. -/
theorem isSome_decode_append {l r : List UInt8} {b : UInt8} (hb : b.toNat < 128) :
    (decode (l ++ b :: r)).isSome = true ↔
      (decode l).isSome = true ∧ (decode (b :: r)).isSome = true := by
  rw [isSome_decode, isSome_decode, isSome_decode]
  constructor
  · rintro ⟨s, hs⟩
    obtain ⟨x, y, hx, hy⟩ := exists_bytes_append hb hs
    exact ⟨⟨x, hx⟩, ⟨y, hy⟩⟩
  · rintro ⟨⟨x, hx⟩, ⟨y, hy⟩⟩
    exact ⟨x ++ y, by rw [bytes_append, hx, hy]⟩

theorem isSome_decode_cons {l : List UInt8} {b : UInt8} (hb : b.toNat < 128) :
    (decode (b :: l)).isSome = true ↔ (decode l).isSome = true := by
  rw [isSome_decode, isSome_decode]
  constructor
  · rintro ⟨s, hs⟩
    rw [bytes_eq] at hs
    rcases hcs : s.toList with _ | ⟨c, cs⟩
    · rw [hcs] at hs
      simp at hs
    · rw [hcs, List.flatMap_cons] at hs
      refine ⟨String.ofList cs, ?_⟩
      rw [bytes_eq, String.toList_ofList]
      rcases encode_cases c with ⟨-, hone⟩ | ⟨-, hge⟩
      · rw [hone, List.singleton_append, List.cons.injEq] at hs
        exact hs.2
      · rcases he : String.utf8EncodeChar c with _ | ⟨e, es⟩
        · have hlen := String.length_utf8EncodeChar c
          have hpos := c.utf8Size_pos
          rw [he, List.length_nil] at hlen
          omega
        · rw [he, List.cons_append, List.cons.injEq] at hs
          have hle := hge e (by rw [he]; exact List.mem_cons_self)
          rw [hs.1] at hle
          omega
  · rintro ⟨s, rfl⟩
    obtain ⟨c, hc⟩ := exists_encode_eq hb
    refine ⟨String.ofList [c] ++ s, ?_⟩
    rw [bytes_append, bytes_eq, String.toList_ofList, List.flatMap_singleton, hc,
      List.singleton_append]

/-- ASCII before a text changes nothing about it. -/
theorem isSome_decode_ascii_append {l r : List UInt8} (h : ∀ b ∈ l, b.toNat < 128) :
    (decode (l ++ r)).isSome = true ↔ (decode r).isSome = true := by
  induction l with
  | nil => rfl
  | cons b l ih =>
    rw [List.cons_append, isSome_decode_cons (h b List.mem_cons_self),
      ih fun c hc => h c (List.mem_cons_of_mem _ hc)]

/-- A text begins with the ASCII character its bytes begin with. -/
theorem head?_of_bytes {c : Char} (hc : c.toNat < 128) {s : String}
    (h : (bytes s).head? = some (UInt8.ofNat c.toNat)) : s.toList.head? = some c := by
  rw [bytes_eq] at h
  rcases hs : s.toList with _ | ⟨d, ds⟩
  · rw [hs] at h
    simp at h
  · rw [hs, List.flatMap_cons] at h
    rw [List.head?_cons, Option.some.injEq]
    rcases encode_cases d with ⟨hlt, hone⟩ | ⟨-, hge⟩
    · rw [hone, List.cons_append, List.head?_cons, Option.some.injEq] at h
      have hnat := congrArg UInt8.toNat h
      simp only [UInt8.toNat_ofNat'] at hnat
      exact Char.ext (UInt32.toNat_inj.1 (by
        show d.toNat = c.toNat
        omega))
    · rcases he : String.utf8EncodeChar d with _ | ⟨e, es⟩
      · have hlen := String.length_utf8EncodeChar d
        have hpos := d.utf8Size_pos
        rw [he, List.length_nil] at hlen
        omega
      · rw [he, List.cons_append, List.head?_cons, Option.some.injEq] at h
        have hle := hge e (by rw [he]; exact List.mem_cons_self)
        have hnat := congrArg UInt8.toNat h
        simp only [UInt8.toNat_ofNat'] at hnat
        omega

/-- ASCII is UTF-8. -/
theorem isValidUTF8_of_ascii {l : List UInt8} (h : ∀ b ∈ l, b.toNat < 128) :
    ByteArray.IsValidUTF8 ⟨l.toArray⟩ := by
  induction l with
  | nil => exact ByteArray.isValidUTF8_empty
  | cons b l ih =>
    obtain ⟨c, hone⟩ := exists_encode_eq (h b List.mem_cons_self)
    have happ : (⟨(b :: l).toArray⟩ : ByteArray) = [b].toByteArray ++ ⟨l.toArray⟩ := by
      ext1
      simp
    rw [happ, ← hone]
    exact Char.isValidUTF8_toByteArray_utf8EncodeChar.append
      (ih fun c hc => h c (List.mem_cons_of_mem _ hc))

end Utf8
