import Mathlib.Tactic.Common

/-!
# CBOR data items

The data items an encoder of plain records writes: unsigned integers, texts, arrays and maps of
definite length, each under the shortest head.
-/

namespace Cbor

/-- A number in a given count of bytes, the highest first. -/
def beBytes : ℕ → ℕ → List UInt8
  | 0, _ => []
  | w + 1, n => beBytes w (n / 256) ++ [UInt8.ofNat n]

/-- The head of an item: its major type and its argument. -/
def head (major n : ℕ) : List UInt8 :=
  if n < 24 then [UInt8.ofNat (32 * major + n)]
  else if n < 0x100 then UInt8.ofNat (32 * major + 24) :: beBytes 1 n
  else if n < 0x10000 then UInt8.ofNat (32 * major + 25) :: beBytes 2 n
  else if n < 0x100000000 then UInt8.ofNat (32 * major + 26) :: beBytes 4 n
  else UInt8.ofNat (32 * major + 27) :: beBytes 8 n

def uint (n : ℕ) : List UInt8 := head 0 n

def text (s : String) : List UInt8 := head 3 s.utf8ByteSize ++ s.toUTF8.data.toList

def array (items : List (List UInt8)) : List UInt8 := head 4 items.length ++ items.flatten

def map (entries : List (List UInt8 × List UInt8)) : List UInt8 :=
  head 5 entries.length ++ entries.flatMap fun e => e.1 ++ e.2

@[simp] theorem length_beBytes (w n : ℕ) : (beBytes w n).length = w := by
  induction w generalizing n with
  | zero => rfl
  | succ w ih => simp [beBytes, ih]

theorem length_head_le (major n : ℕ) : (head major n).length ≤ 9 := by
  unfold head
  split_ifs <;> simp

theorem length_head_of_lt_24 {major n : ℕ} (h : n < 24) : (head major n).length = 1 := by
  simp [head, h]

theorem length_head_of_byte {major n : ℕ} (h : n < 256) : (head major n).length ≤ 2 := by
  unfold head
  by_cases hlt : n < 24
  · simp [hlt]
  · rw [if_neg hlt, if_pos (by omega)]
    simp

theorem length_text (s : String) :
    (text s).length = (head 3 s.utf8ByteSize).length + s.utf8ByteSize := by
  rw [text, List.length_append]
  rfl

/-- An array of bytes, each written as an integer. -/
theorem length_array_bytes_le (bytes : List UInt8) :
    (array (bytes.map fun b => uint b.toNat)).length ≤ 9 + 2 * bytes.length := by
  have hitems : (bytes.map fun b => uint b.toNat).flatten.length ≤ 2 * bytes.length := by
    induction bytes with
    | nil => simp
    | cons b bytes ih =>
      have hb : (uint b.toNat).length ≤ 2 := length_head_of_byte b.toNat_lt
      simp only [List.map_cons, List.flatten_cons, List.length_append, List.length_cons]
      omega
  have hhead := length_head_le 4 (bytes.map fun b => uint b.toNat).length
  rw [array, List.length_append]
  omega

end Cbor
