import BuilderPro.Sessiond.OscSequence
import Mathlib.Data.List.DropRight

/-!
# The scrollback ring

`scrollback.rs`: the sanitizer drops title, cwd and prompt-mark OSCs and the private-mode toggles
from the PTY's output, and the ring keeps the last `cap` bytes of what is left.  A ring pushed any
chunks holds the end of the sanitized stream (`snapshot_pushAll`), however it was cut.
-/

namespace BuilderPro

open CarryFilter

namespace Scrollback

def carryCap : ℕ := 256

def recognizedOscCap : ℕ := 8192

/-- The identifiers of the side-effecting OSCs. -/
def oscIdents : List (List UInt8) :=
  [ascii ['0'], ascii ['1'], ascii ['2'], ascii ['7'], ascii ['1', '3', '3']]

def isRecognizedStrippableOscPrefix (seq : List UInt8) : Bool := Osc.recognized oscIdents seq

def isFinal (c : UInt8) : Bool := 0x40 ≤ c && c ≤ 0x7E

/-- `ESC [ <params/intermediates> <final>`: the toggles of the private modes 1049, 47 and 2004 are
dropped, everything else is kept. -/
def classifyCsi (seq : List UInt8) : Verdict :=
  let body := seq.drop 2
  let params := body.takeWhile fun c => !isFinal c
  match body.dropWhile fun c => !isFinal c with
  | [] => .incomplete
  | finalByte :: _ =>
    let isToggle := finalByte == ch 'h' || finalByte == ch 'l'
    if isToggle && (params == ascii ['?', '1', '0', '4', '9'] || params == ascii ['?', '4', '7'] ||
        params == ascii ['?', '2', '0', '0', '4']) then .drop
    else .keep

def classifyOsc (seq : List UInt8) : Verdict := Osc.classify oscIdents seq

def classify : List UInt8 → Verdict
  | seq@(_ :: b :: _) =>
    if b = ch '[' then classifyCsi seq
    else if b = ch ']' then classifyOsc seq
    else .keep
  | _ => .incomplete

def rules : Rules UInt8 where
  lead b := b == esc
  classify := classify
  recognized := isRecognizedStrippableOscPrefix
  carryCap := carryCap
  recognizedCap := recognizedOscCap
  defused := fffd

theorem defused_lead : ∀ a ∈ rules.defused, rules.lead a = false := by
  intro a ha
  simp only [rules, fffd, List.mem_cons, List.not_mem_nil, or_false] at ha
  rcases ha with rfl | rfl | rfl <;> rfl

end Scrollback

/-- The streaming filter: its carry is empty or a sequence it can hold. -/
structure Sanitizer where
  carry : List UInt8
  held : carry = [] ∨ Scrollback.rules.Held carry

namespace Sanitizer

def new : Sanitizer := ⟨[], .inl rfl⟩

theorem feed_held (s : Sanitizer) (chunk : List UInt8) :
    (Scrollback.rules.feed s.carry chunk).2 = [] ∨
      Scrollback.rules.Held (Scrollback.rules.feed s.carry chunk).2 := by
  rw [Scrollback.rules.feed_eq_read]
  exact (Scrollback.rules.read_wf s.held chunk).2

def filter (s : Sanitizer) (chunk : List UInt8) : List UInt8 × Sanitizer :=
  ((Scrollback.rules.feed s.carry chunk).1,
    ⟨(Scrollback.rules.feed s.carry chunk).2, s.feed_held chunk⟩)

end Sanitizer

namespace Scrollback

/-- Drop oldest bytes until within `cap`. -/
def prune (cap : ℕ) : List UInt8 → List UInt8
  | [] => []
  | b :: bs => if cap < (b :: bs).length then prune cap bs else b :: bs

theorem prune_eq_rtake (cap : ℕ) (l : List UInt8) : prune cap l = l.rtake cap := by
  unfold List.rtake
  induction l with
  | nil => simp [prune]
  | cons b bs ih =>
    unfold prune
    split_ifs with h
    · rw [ih, List.length_cons, Nat.sub_add_comm (by simpa [Nat.lt_succ_iff] using h)]
      rfl
    · rw [Nat.sub_eq_zero_of_le (by omega), List.drop_zero]

theorem length_prune_le (cap : ℕ) (l : List UInt8) : (prune cap l).length ≤ cap := by
  rw [prune_eq_rtake, List.rtake, List.length_drop]
  omega

end Scrollback

/-- The ring: never more than `cap` bytes. -/
structure ScrollbackRing where
  cap : ℕ
  buf : List UInt8
  filter : Sanitizer
  length_le : buf.length ≤ cap

namespace ScrollbackRing

open Scrollback

def new (cap : ℕ) : ScrollbackRing := ⟨cap, [], .new, by simp⟩

def push (r : ScrollbackRing) (chunk : List UInt8) : ScrollbackRing :=
  let kept := r.filter.filter chunk
  { r with
    buf := prune r.cap (r.buf ++ kept.1)
    filter := kept.2
    length_le := length_prune_le _ _ }

def snapshot (r : ScrollbackRing) : List UInt8 := r.buf

def pushAll (r : ScrollbackRing) (chunks : List (List UInt8)) : ScrollbackRing :=
  chunks.foldl push r

@[simp] theorem pushAll_nil (r : ScrollbackRing) : r.pushAll [] = r := rfl

@[simp] theorem pushAll_cons (r : ScrollbackRing) (c : List UInt8) (cs : List (List UInt8)) :
    r.pushAll (c :: cs) = (r.push c).pushAll cs := rfl

theorem pushAll_append (r : ScrollbackRing) (xs ys : List (List UInt8)) :
    r.pushAll (xs ++ ys) = (r.pushAll xs).pushAll ys := List.foldl_append

@[simp] theorem push_cap (r : ScrollbackRing) (c : List UInt8) : (r.push c).cap = r.cap := rfl

@[simp] theorem push_carry (r : ScrollbackRing) (c : List UInt8) :
    (r.push c).filter.carry = (rules.feed r.filter.carry c).2 := rfl

theorem push_buf (r : ScrollbackRing) (c : List UInt8) :
    (r.push c).buf = (r.buf ++ (rules.feed r.filter.carry c).1).rtake r.cap :=
  prune_eq_rtake _ _

theorem rtake_rtake_append (cap : ℕ) (xs ys : List UInt8) :
    (xs.rtake cap ++ ys).rtake cap = (xs ++ ys).rtake cap := by
  simp only [List.rtake, List.length_append, List.length_drop, List.drop_append, List.drop_drop]
  rw [show xs.length - cap + (xs.length - (xs.length - cap) + ys.length - cap)
    = xs.length + ys.length - cap by omega]
  congr 2
  omega

/-- However the stream is cut, the ring holds the end of the sanitized stream, and the sanitizer
its open sequence. -/
theorem pushAll_spec (r : ScrollbackRing) (chunks : List (List UInt8)) :
    (r.pushAll chunks).buf
        = (r.buf ++ (rules.feed r.filter.carry chunks.flatten).1).rtake r.cap
      ∧ (r.pushAll chunks).filter.carry = (rules.feed r.filter.carry chunks.flatten).2
      ∧ (r.pushAll chunks).cap = r.cap := by
  induction chunks generalizing r with
  | nil =>
    have := r.length_le
    simp [List.rtake, Nat.sub_eq_zero_of_le this]
  | cons c cs ih =>
    obtain ⟨h1, h2, h3⟩ := ih (r.push c)
    rw [pushAll_cons, h1, h2, h3, push_buf, push_carry, push_cap, rtake_rtake_append,
      List.flatten_cons, rules.feed_append, List.append_assoc]
    exact ⟨rfl, rfl, rfl⟩

theorem snapshot_pushAll (cap : ℕ) (chunks : List (List UInt8)) :
    ((new cap).pushAll chunks).snapshot = (rules.feed [] chunks.flatten).1.rtake cap :=
  ((new cap).pushAll_spec chunks).1

end ScrollbackRing

end BuilderPro
