import Mathlib.Data.List.Basic
import Mathlib.Data.List.Infix
import Mathlib.Tactic.Common

/-!
# Streaming filters with a carry

A filter that passes a stream of letters on, except that a lead letter opens a sequence it holds
back in a carry until the sequence is complete, or too long to be held.  `feed` is the filter as
it runs, a letter at a time; `read` is what it makes of the stream, cut into segments, and `feed`
shows the segments `read` finds (`feed_eq_read`).  Each segment is judged from its own letters
alone, so a stream of segments is read as those segments again (`read_raw_of_wf`).
-/

namespace CarryFilter

variable {α β : Type*}

/-- What a classifier says of the carry. -/
inductive Verdict
  | drop
  | keep
  | incomplete
  deriving DecidableEq, Repr

/-- The rules of a filter: which letters open a sequence, what the carry is so far, the two caps
on a carry that stays incomplete, and what replaces the lead letter of a recognized sequence that
outgrows its cap. -/
structure Rules (α : Type*) where
  lead : α → Bool
  classify : List α → Verdict
  recognized : List α → Bool
  carryCap : ℕ
  recognizedCap : ℕ
  defused : List α

/-- What became of a sequence. -/
inductive Fate
  | dropped
  | kept
  | flushed
  | defused
  deriving DecidableEq, Repr

/-- A stretch of the stream the filter treats as one: a letter outside every sequence, or a
sequence and what became of it. -/
inductive Seg (α : Type*)
  | text (b : α)
  | seq (c : List α) (f : Fate)
  deriving DecidableEq, Repr

/-- The letters a segment is made of. -/
def Seg.raw : Seg α → List α
  | .text b => [b]
  | .seq c _ => c

namespace Rules

variable (R : Rules α)

/-- One letter: what is passed on, and the carry after it. -/
def step (c : List α) (b : α) : List α × List α :=
  if c = [] then
    if R.lead b then ([], [b]) else ([b], [])
  else
    let c := c ++ [b]
    match R.classify c with
    | .incomplete =>
      if R.recognized c then
        if R.recognizedCap < c.length then (R.defused ++ c.tail, []) else ([], c)
      else
        if R.carryCap < c.length then (c, []) else ([], c)
    | .drop => ([], [])
    | .keep => (c, [])

/-- A chunk, letter by letter. -/
def feed : List α → List α → List α × List α
  | c, [] => ([], c)
  | c, b :: bs =>
    let s := R.step c b
    let r := feed s.2 bs
    (s.1 ++ r.1, r.2)

/-- A stream that arrives in chunks: everything passed on, and the carry at the end. -/
def feedAll : List α → List (List α) → List α × List α
  | c, [] => ([], c)
  | c, bs :: chunks =>
    let s := R.feed c bs
    let r := feedAll s.2 chunks
    (s.1 ++ r.1, r.2)

/-- What becomes of a carry that has just grown; `none` while it is held. -/
def fate (c : List α) : Option Fate :=
  match R.classify c with
  | .drop => some .dropped
  | .keep => some .kept
  | .incomplete =>
    if R.recognized c then
      if R.recognizedCap < c.length then some .defused else none
    else
      if R.carryCap < c.length then some .flushed else none

theorem fate_eq_dropped {c : List α} : R.fate c = some .dropped ↔ R.classify c = .drop := by
  unfold fate
  split <;> (try split_ifs) <;> simp_all

theorem fate_eq_kept {c : List α} : R.fate c = some .kept ↔ R.classify c = .keep := by
  unfold fate
  split <;> (try split_ifs) <;> simp_all

theorem fate_eq_flushed {c : List α} : R.fate c = some .flushed ↔
    R.classify c = .incomplete ∧ R.recognized c = false ∧ R.carryCap < c.length := by
  unfold fate
  split <;> (try split_ifs) <;> simp_all

theorem fate_eq_defused {c : List α} : R.fate c = some .defused ↔
    R.classify c = .incomplete ∧ R.recognized c = true ∧ R.recognizedCap < c.length := by
  unfold fate
  split <;> (try split_ifs) <;> simp_all

theorem classify_of_fate_none {c : List α} (h : R.fate c = none) :
    R.classify c = .incomplete := by
  unfold fate at h
  split at h <;> simp_all

/-- The segments of a stream, and the sequence still open at its end. -/
def read : List α → List α → List (Seg α) × List α
  | c, [] => ([], c)
  | [], b :: bs =>
    if R.lead b then read [b] bs
    else
      let r := read [] bs
      (.text b :: r.1, r.2)
  | a :: c, b :: bs =>
    match R.fate (a :: c ++ [b]) with
    | none => read (a :: c ++ [b]) bs
    | some f =>
      let r := read [] bs
      (.seq (a :: c ++ [b]) f :: r.1, r.2)

/-- What the filter passes on of a segment. -/
def shown : Seg α → List α
  | .text b => [b]
  | .seq _ .dropped => []
  | .seq c .kept => c
  | .seq c .flushed => c
  | .seq c .defused => R.defused ++ c.tail

/-- What the filter passes on of a stretch of segments. -/
def shownAll (ss : List (Seg α)) : List α := ss.flatMap R.shown

@[simp] theorem shownAll_nil : R.shownAll [] = [] := rfl

@[simp] theorem shownAll_cons (s : Seg α) (ss : List (Seg α)) :
    R.shownAll (s :: ss) = R.shown s ++ R.shownAll ss := rfl

@[simp] theorem shownAll_append (ss ts : List (Seg α)) :
    R.shownAll (ss ++ ts) = R.shownAll ss ++ R.shownAll ts := List.flatMap_append

@[simp] theorem feed_nil (c : List α) : R.feed c [] = ([], c) := by cases c <;> rfl

@[simp] theorem feed_cons (c : List α) (b : α) (bs : List α) :
    R.feed c (b :: bs) = ((R.step c b).1 ++ (R.feed (R.step c b).2 bs).1,
      (R.feed (R.step c b).2 bs).2) := by
  cases c <;> rfl

@[simp] theorem read_nil (c : List α) : R.read c [] = ([], c) := by cases c <;> rfl

theorem read_lead {b : α} (h : R.lead b) (bs : List α) : R.read [] (b :: bs) = R.read [b] bs := by
  rw [read, if_pos h]

theorem read_text {b : α} (h : R.lead b = false) (bs : List α) :
    R.read [] (b :: bs) = (.text b :: (R.read [] bs).1, (R.read [] bs).2) := by
  rw [read, if_neg (by simp [h])]

theorem read_held {c : List α} (hc : c ≠ []) {b : α} (h : R.fate (c ++ [b]) = none)
    (bs : List α) : R.read c (b :: bs) = R.read (c ++ [b]) bs := by
  obtain ⟨a, c, rfl⟩ := List.exists_cons_of_ne_nil hc
  rw [read, h]

theorem read_closed {c : List α} (hc : c ≠ []) {b : α} {f : Fate}
    (h : R.fate (c ++ [b]) = some f) (bs : List α) :
    R.read c (b :: bs) = (.seq (c ++ [b]) f :: (R.read [] bs).1, (R.read [] bs).2) := by
  obtain ⟨a, c, rfl⟩ := List.exists_cons_of_ne_nil hc
  rw [read, h]

/-- A step in terms of the carry's fate. -/
theorem step_of_ne_nil {c : List α} (hc : c ≠ []) (b : α) :
    R.step c b = match R.fate (c ++ [b]) with
      | none => ([], c ++ [b])
      | some f => (R.shown (.seq (c ++ [b]) f), []) := by
  unfold step fate
  rw [if_neg hc]
  simp only []
  split <;> (try split_ifs) <;> simp_all [shown]

theorem feed_append (c xs ys : List α) :
    R.feed c (xs ++ ys) = ((R.feed c xs).1 ++ (R.feed (R.feed c xs).2 ys).1,
      (R.feed (R.feed c xs).2 ys).2) := by
  induction xs generalizing c with
  | nil => simp
  | cons b bs ih => simp [ih]

/-- How the stream was cut makes no difference. -/
theorem feedAll_eq (c : List α) (chunks : List (List α)) :
    R.feedAll c chunks = R.feed c chunks.flatten := by
  induction chunks generalizing c with
  | nil => simp [feedAll]
  | cons bs chunks ih => rw [feedAll, ih, List.flatten_cons, feed_append]

/-- The filter shows the segments of the stream, and holds the open one. -/
theorem feed_eq_read (c bs : List α) :
    R.feed c bs = (R.shownAll (R.read c bs).1, (R.read c bs).2) := by
  induction bs generalizing c with
  | nil => simp
  | cons b bs ih =>
    rw [feed_cons]
    rcases eq_or_ne c [] with rfl | hc
    · rcases hb : R.lead b
      · simp [step, hb, R.read_text hb, ih, shown]
      · simp [step, hb, R.read_lead hb, ih]
    · rw [R.step_of_ne_nil hc]
      rcases hf : R.fate (c ++ [b]) with _ | f
      · simp [R.read_held hc hf, ih]
      · simp [R.read_closed hc hf, ih]

/-- The segments and the open sequence are the stream. -/
theorem raw_read (c bs : List α) :
    (R.read c bs).1.flatMap Seg.raw ++ (R.read c bs).2 = c ++ bs := by
  induction bs generalizing c with
  | nil => simp
  | cons b bs ih =>
    rcases eq_or_ne c [] with rfl | hc
    · rcases hb : R.lead b
      · simp [R.read_text hb, ih, Seg.raw]
      · simp [R.read_lead hb, ih]
    · rcases hf : R.fate (c ++ [b]) with _ | f
      · simp [R.read_held hc hf, ih]
      · simp [R.read_closed hc hf, ih, Seg.raw]

/-! ## Segments judged by their own letters -/

/-- A carry the filter can hold. -/
inductive Held : List α → Prop
  | lead {b : α} (h : R.lead b) : Held [b]
  | grow {c : List α} {b : α} (hc : Held c) (h : R.fate (c ++ [b]) = none) : Held (c ++ [b])

/-- A segment as the filter cuts them. -/
inductive WF : Seg α → Prop
  | text {b : α} (h : R.lead b = false) : WF (.text b)
  | seq {c : List α} {b : α} {f : Fate} (hc : R.Held c) (h : R.fate (c ++ [b]) = some f) :
      WF (.seq (c ++ [b]) f)

variable {R}

theorem Held.cons {c : List α} (h : R.Held c) : ∃ a t, c = a :: t ∧ R.lead a := by
  induction h with
  | lead h => exact ⟨_, _, rfl, h⟩
  | grow hc h ih =>
    obtain ⟨a, t, rfl, ha⟩ := ih
    exact ⟨a, _, rfl, ha⟩

theorem Held.ne_nil {c : List α} (h : R.Held c) : c ≠ [] := by
  obtain ⟨a, t, rfl, -⟩ := h.cons
  exact List.cons_ne_nil a t

theorem WF.cons {c : List α} {f : Fate} (h : R.WF (.seq c f)) : ∃ a t, c = a :: t ∧ R.lead a := by
  cases h with
  | seq hc h =>
    obtain ⟨a, t, rfl, ha⟩ := hc.cons
    exact ⟨a, _, rfl, ha⟩

/-- Every shorter start of a carry the filter held was held too. -/
theorem Held.of_prefix {c p : List α} (h : R.Held c) (hp : p <+: c) (hne : p ≠ []) : R.Held p := by
  induction h with
  | lead h =>
    obtain ⟨t, ht⟩ := hp
    rcases List.append_eq_singleton_iff.1 ht with ⟨rfl, -⟩ | ⟨rfl, -⟩
    · exact absurd rfl hne
    · exact .lead h
  | grow hc h ih =>
    rcases List.prefix_concat_iff.1 hp with rfl | hp
    · exact .grow hc h
    · exact ih hp

/-- The filter waited for more at every longer start of a carry it held. -/
theorem Held.fate {c : List α} (h : R.Held c) (h2 : 2 ≤ c.length) : R.fate c = none := by
  cases h with
  | lead h => simp at h2
  | grow hc h => exact h

/-- A carry is no longer than the caps. -/
theorem Held.length_le {n : ℕ} (hn : 1 ≤ n) (hrec : R.recognizedCap ≤ n) (hcap : R.carryCap ≤ n)
    {c : List α} (h : R.Held c) : c.length ≤ n := by
  cases h with
  | lead h => simpa using hn
  | grow hc h =>
    unfold Rules.fate at h
    split at h
    · cases h
    · cases h
    · split_ifs at h <;> omega

/-- A sequence is no longer than the caps and the letter that closed it. -/
theorem WF.length_le {n : ℕ} (hn : 1 ≤ n) (hrec : R.recognizedCap ≤ n) (hcap : R.carryCap ≤ n)
    {c : List α} {f : Fate} (h : R.WF (.seq c f)) : c.length ≤ n + 1 := by
  cases h with
  | seq hc h =>
    have := hc.length_le hn hrec hcap
    rw [List.length_append, List.length_singleton]
    omega

theorem WF.fate {c : List α} {f : Fate} (h : R.WF (.seq c f)) : R.fate c = some f := by
  cases h with
  | seq hc h => exact h

/-- A start of a closed sequence that is not the whole of it was held. -/
theorem WF.of_prefix {c p : List α} {f : Fate} (h : R.WF (.seq c f)) (hp : p <+: c) (hne : p ≠ [])
    (hpc : p ≠ c) : R.Held p := by
  cases h with
  | seq hc h =>
    rcases List.prefix_concat_iff.1 hp with rfl | hp
    · exact absurd rfl hpc
    · exact hc.of_prefix hp hne

/-- A word none of whose starts is let through can start a sequence that is let through only if the
sequence goes on after it. -/
theorem WF.start {c w rest : List α} {f : Fate} (h : R.WF (.seq c f))
    (hf : f = .kept ∨ f = .flushed)
    (hw : ∀ p ∈ w.inits, R.fate p ≠ some .kept ∧ R.fate p ≠ some .flushed)
    (hwc : w <+: c ++ rest) : w <+: c ∧ w ≠ c := by
  have hne : ∀ p ∈ w.inits, p ≠ c := by
    intro p hp hpc
    rw [← hpc] at h
    rcases hf with rfl | rfl
    · exact (hw p hp).1 h.fate
    · exact (hw p hp).2 h.fate
  refine ⟨?_, hne w (by simp)⟩
  obtain ⟨r, hr⟩ := hwc
  rcases List.append_eq_append_iff.1 hr with ⟨q, hq, -⟩ | ⟨q, hq, -⟩
  · exact ⟨q, hq.symm⟩
  · exact absurd rfl (hne c ((List.mem_inits c w).2 ⟨q, hq.symm⟩))

variable (R)

/-- What `read` finds are segments, and what it leaves open is a carry. -/
theorem read_wf {c : List α} (hc : c = [] ∨ R.Held c) (bs : List α) :
    (∀ s ∈ (R.read c bs).1, R.WF s) ∧ ((R.read c bs).2 = [] ∨ R.Held (R.read c bs).2) := by
  induction bs generalizing c with
  | nil => simpa using hc
  | cons b bs ih =>
    rcases hc with rfl | hc
    · rcases hb : R.lead b
      · rw [R.read_text hb]
        refine ⟨fun s hs => ?_, (ih (.inl rfl)).2⟩
        rcases List.mem_cons.1 hs with rfl | hs
        · exact .text hb
        · exact (ih (.inl rfl)).1 s hs
      · rw [R.read_lead hb]
        exact ih (.inr (.lead hb))
    · rcases hf : R.fate (c ++ [b]) with _ | f
      · rw [R.read_held hc.ne_nil hf]
        exact ih (.inr (.grow hc hf))
      · rw [R.read_closed hc.ne_nil hf]
        refine ⟨fun s hs => ?_, (ih (.inl rfl)).2⟩
        rcases List.mem_cons.1 hs with rfl | hs
        · exact .seq hc hf
        · exact (ih (.inl rfl)).1 s hs

/-- Reading the letters of a carry from the start leaves it open. -/
theorem read_held_append {c : List α} (h : R.Held c) (bs : List α) :
    R.read [] (c ++ bs) = R.read c bs := by
  induction h generalizing bs with
  | lead h => exact R.read_lead h bs
  | grow hc h ih =>
    rw [List.append_assoc, ih, List.singleton_append, R.read_held hc.ne_nil h]

/-- A segment's own letters are read as that segment, whatever follows. -/
theorem read_seg {s : Seg α} (h : R.WF s) (bs : List α) :
    R.read [] (s.raw ++ bs) = (s :: (R.read [] bs).1, (R.read [] bs).2) := by
  cases h with
  | text h => exact R.read_text h bs
  | seq hc h =>
    rw [Seg.raw, List.append_assoc, R.read_held_append hc, List.singleton_append,
      R.read_closed hc.ne_nil h]

/-- A stream of segments is read as those segments. -/
theorem read_raw_of_wf {ss : List (Seg α)} (h : ∀ s ∈ ss, R.WF s) (bs : List α) :
    R.read [] (ss.flatMap Seg.raw ++ bs) = (ss ++ (R.read [] bs).1, (R.read [] bs).2) := by
  induction ss with
  | nil => simp
  | cons s ss ih =>
    rw [List.flatMap_cons, List.append_assoc, R.read_seg (h s List.mem_cons_self),
      ih fun s hs => h s (List.mem_cons_of_mem _ hs), List.cons_append]

end Rules

end CarryFilter
