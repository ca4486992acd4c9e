import Mathlib.Data.List.Basic
import Mathlib.Tactic.Common

/-!
# Reading units off a stream

A reader takes one unit off the front of what has arrived, asks for more, or finds that the stream
is bad.  Its answers do not change when more arrives (`item_append`, `bad_append`).  A receiver that
is fed the stream in pieces (`feed`) and answers a bad stream with the error alone loses the units
the same piece has completed (`feed_items`); it hands out the same units for every way of cutting
the stream exactly when the stream is not bad, or bad from its first unit on (`feed_same_iff`).
-/

namespace StreamReader

inductive Next (ε α β : Type*)
  | more
  | item (a : α) (rest : List β)
  | bad (e : ε)

structure Reader (ε α β : Type*) where
  next : List β → Next ε α β
  next_nil : next [] = .more
  item_exact : ∀ {bs a rest}, next bs = .item a rest →
    ∃ u, bs = u ++ rest ∧ next u = .item a []
  item_append : ∀ {bs a rest} cs, next bs = .item a rest → next (bs ++ cs) = .item a (rest ++ cs)
  bad_append : ∀ {bs e} cs, next bs = .bad e → next (bs ++ cs) = .bad e

/-- The units read, what is left, and the error that stopped the reading. -/
structure Reading (ε α β : Type*) where
  items : List α
  rest : List β
  error : Option ε

namespace Reader

variable {ε α β : Type*} (R : Reader ε α β)

theorem item_shorter {bs rest : List β} {a : α} (h : R.next bs = .item a rest) :
    rest.length < bs.length := by
  obtain ⟨u, rfl, hu⟩ := R.item_exact h
  rcases u with _ | ⟨b, u⟩
  · rw [R.next_nil] at hu
    cases hu
  · simp only [List.cons_append, List.length_cons, List.length_append]
    omega

/-- Every unit of a stream, up to where it is bad or wants more. -/
def read (bs : List β) : Reading ε α β :=
  match h : R.next bs with
  | .more => ⟨[], bs, none⟩
  | .bad e => ⟨[], bs, some e⟩
  | .item a rest =>
    have := R.item_shorter h
    let r := read rest
    ⟨a :: r.items, r.rest, r.error⟩
termination_by bs.length

/-- Feeds a receiver that holds `buf` the pieces of a stream, until it reports an error.  The units
read in the piece where the stream is bad are not handed out. -/
def feed (buf : List β) : List (List β) → Reading ε α β
  | [] => ⟨[], buf, none⟩
  | c :: cs =>
    let r := R.read (buf ++ c)
    match r.error with
    | some e => ⟨[], buf ++ c, some e⟩
    | none =>
      let s := feed r.rest cs
      ⟨r.items ++ s.items, s.rest, s.error⟩

/-- The units read in the piece where the stream is bad. -/
def lost (buf : List β) : List (List β) → List α
  | [] => []
  | c :: cs =>
    let r := R.read (buf ++ c)
    if r.error.isSome then r.items else lost r.rest cs

/-- No piece in which the stream turns bad completes a unit. -/
def Clean (cs : List (List β)) : Prop :=
  ∀ pre c post, cs = pre ++ c :: post → (R.read pre.flatten).error = none →
    (R.read (pre.flatten ++ c)).error ≠ none →
    (R.read (pre.flatten ++ c)).items = (R.read pre.flatten).items

variable {R} {bs cs buf : List β} {a : α} {rest : List β} {e : ε}

theorem read_more (h : R.next bs = .more) : R.read bs = ⟨[], bs, none⟩ := by
  rw [read]
  split <;> simp_all

theorem read_bad (h : R.next bs = .bad e) : R.read bs = ⟨[], bs, some e⟩ := by
  rw [read]
  split <;> simp_all

theorem read_item (h : R.next bs = .item a rest) :
    R.read bs = ⟨a :: (R.read rest).items, (R.read rest).rest, (R.read rest).error⟩ := by
  rw [read]
  split <;> simp_all

@[simp] theorem read_nil : R.read ([] : List β) = ⟨[], [], none⟩ := read_more R.next_nil

/-- What is left of a stream that is not bad wants more. -/
theorem next_rest (bs : List β) (h : (R.read bs).error = none) :
    R.next (R.read bs).rest = .more := by
  induction bs using read.induct R with
  | case1 bs hn => rwa [read_more hn]
  | case2 bs e hn => simp [read_bad hn] at h
  | case3 bs a rest hn _ ih =>
    rw [read_item hn] at h ⊢
    exact ih h

/-- More bytes after a stream that is not bad are read after what it left. -/
theorem read_append_of_none (bs cs : List β) (h : (R.read bs).error = none) :
    R.read (bs ++ cs) =
      ⟨(R.read bs).items ++ (R.read ((R.read bs).rest ++ cs)).items,
        (R.read ((R.read bs).rest ++ cs)).rest, (R.read ((R.read bs).rest ++ cs)).error⟩ := by
  induction bs using read.induct R with
  | case1 bs hn => simp [read_more hn]
  | case2 bs e hn => simp [read_bad hn] at h
  | case3 bs a rest hn _ ih =>
    rw [read_item hn] at h ⊢
    rw [read_item (R.item_append cs hn), ih h]
    rfl

/-- A bad stream stays bad where it is. -/
theorem read_append_of_some (bs cs : List β) (h : (R.read bs).error = some e) :
    R.read (bs ++ cs) = ⟨(R.read bs).items, (R.read bs).rest ++ cs, some e⟩ := by
  induction bs using read.induct R with
  | case1 bs hn => simp [read_more hn] at h
  | case2 bs e' hn =>
    rw [read_bad hn] at h ⊢
    rw [read_bad (R.bad_append cs hn)]
    exact congrArg _ h
  | case3 bs a rest hn _ ih =>
    rw [read_item hn] at h ⊢
    rw [read_item (R.item_append cs hn), ih h]

section Feed

variable (ps : List (List β))

/-- What is handed out and what is lost are the units of the stream; the error is the stream's. -/
theorem feed_items (hbuf : R.next buf = .more) :
    (R.feed buf ps).items ++ R.lost buf ps = (R.read (buf ++ ps.flatten)).items
      ∧ (R.feed buf ps).error = (R.read (buf ++ ps.flatten)).error := by
  induction ps generalizing buf with
  | nil => simp [feed, lost, read_more hbuf]
  | cons c cs ih =>
    rw [List.flatten_cons, ← List.append_assoc]
    rcases he : (R.read (buf ++ c)).error with _ | e
    · have hnext := next_rest _ he
      obtain ⟨hi, her⟩ := ih hnext
      rw [read_append_of_none _ _ he]
      simp [feed, lost, he, hi, her]
    · rw [read_append_of_some _ _ he]
      simp [feed, lost, he]

theorem feed_rest (hbuf : R.next buf = .more)
    (h : (R.read (buf ++ ps.flatten)).error = none) :
    (R.feed buf ps).rest = (R.read (buf ++ ps.flatten)).rest := by
  induction ps generalizing buf with
  | nil => simp [feed, read_more hbuf]
  | cons c cs ih =>
    rw [List.flatten_cons, ← List.append_assoc] at h ⊢
    rcases he : (R.read (buf ++ c)).error with _ | e
    · have hnext := next_rest _ he
      rw [read_append_of_none _ _ he] at h ⊢
      simp [feed, he, ih hnext h]
    · rw [read_append_of_some _ _ he] at h
      cases h

theorem lost_of_none (hbuf : R.next buf = .more)
    (h : (R.read (buf ++ ps.flatten)).error = none) : R.lost buf ps = [] := by
  induction ps generalizing buf with
  | nil => rfl
  | cons c cs ih =>
    rw [List.flatten_cons, ← List.append_assoc] at h
    rcases he : (R.read (buf ++ c)).error with _ | e
    · rw [read_append_of_none _ _ he] at h
      simp [lost, he, ih (next_rest _ he) h]
    · rw [read_append_of_some _ _ he] at h
      cases h

/-- Nothing is lost exactly when the piece that is bad completes no unit. -/
theorem lost_eq_nil_iff (bs : List β) (hbs : (R.read bs).error = none) :
    R.lost (R.read bs).rest ps = [] ↔
      ∀ pre c post, ps = pre ++ c :: post → (R.read (bs ++ pre.flatten)).error = none →
        (R.read (bs ++ pre.flatten ++ c)).error ≠ none →
        (R.read (bs ++ pre.flatten ++ c)).items = (R.read (bs ++ pre.flatten)).items := by
  induction ps generalizing bs with
  | nil => simp [lost]
  | cons c cs ih =>
    have happ := read_append_of_none bs c hbs
    rcases he : (R.read ((R.read bs).rest ++ c)).error with _ | e
    · have hbc : (R.read (bs ++ c)).error = none := by rw [happ, he]
      have hrest : (R.read (bs ++ c)).rest = (R.read ((R.read bs).rest ++ c)).rest := by rw [happ]
      have hlost : R.lost (R.read bs).rest (c :: cs) = R.lost (R.read (bs ++ c)).rest cs := by
        simp [lost, he, hrest]
      rw [hlost, ih _ hbc]
      constructor
      · intro h pre d post hsplit hnone hbad
        rcases pre with _ | ⟨d', pre⟩
        · obtain ⟨rfl, rfl⟩ : c = d ∧ cs = post := by simpa using hsplit
          simp [hbc] at hbad
        · obtain ⟨rfl, hcs⟩ : c = d' ∧ cs = pre ++ d :: post := by simpa using hsplit
          simpa using h pre d post hcs (by simpa using hnone) (by simpa using hbad)
      · intro h pre d post hsplit hnone hbad
        simpa using h (c :: pre) d post (by simp [hsplit]) (by simpa using hnone)
          (by simpa using hbad)
    · have hlost : R.lost (R.read bs).rest (c :: cs) = (R.read ((R.read bs).rest ++ c)).items := by
        simp [lost, he]
      rw [hlost]
      constructor
      · intro h pre d post hsplit hnone hbad
        rcases pre with _ | ⟨d', pre⟩
        · obtain ⟨rfl, rfl⟩ : c = d ∧ cs = post := by simpa using hsplit
          simp [happ, h]
        · obtain ⟨rfl, -⟩ : c = d' ∧ cs = pre ++ d :: post := by simpa using hsplit
          have hbc : (R.read (bs ++ c)).error = some e := by rw [happ, he]
          rw [List.flatten_cons, ← List.append_assoc, read_append_of_some _ _ hbc] at hnone
          cases hnone
      · intro h
        have := h [] c cs rfl (by simpa using hbs) (by simp [happ, he])
        simpa [happ] using this

theorem feed_items_iff_clean :
    (R.feed [] ps).items = (R.read ps.flatten).items ↔ R.Clean ps := by
  have hitems := (feed_items ps R.next_nil).1
  have hlost := lost_eq_nil_iff (R := R) ps [] (by simp)
  simp only [read_nil, List.nil_append] at hitems hlost
  rw [Clean, ← hlost, ← hitems]
  exact List.self_eq_append_right

end Feed

/-- Every way of cutting the stream hands out the same units exactly when no unit comes before the
place where it is bad. -/
theorem feed_same_iff (bs : List β) :
    (∀ ps qs : List (List β), ps.flatten = bs → qs.flatten = bs →
        (R.feed [] ps).items = (R.feed [] qs).items) ↔
      (R.read bs).error = none ∨ (R.read bs).items = [] := by
  constructor
  · intro h
    rcases he : (R.read bs).error with _ | e
    · exact .inl rfl
    right
    rcases hn : R.next bs with _ | ⟨a, rest⟩ | e'
    · rw [read_more hn]
    · -- the first unit alone in a piece is handed out; all of the stream in one piece, it is not
      obtain ⟨u, rfl, hu⟩ := R.item_exact hn
      have hru : R.read u = ⟨[a], [], none⟩ := by simp [read_item hu]
      have := h [u ++ rest] [u, rest] (by simp) (by simp)
      simp [feed, he, hru] at this
    · rw [read_bad hn]
  · intro h ps qs hps hqs
    have hp := (feed_items ps R.next_nil).1
    have hq := (feed_items qs R.next_nil).1
    rw [List.nil_append, hps] at hp
    rw [List.nil_append, hqs] at hq
    rcases h with h | h
    · rw [lost_of_none ps R.next_nil (by simpa [hps] using h), List.append_nil] at hp
      rw [lost_of_none qs R.next_nil (by simpa [hqs] using h), List.append_nil] at hq
      rw [hp, hq]
    · rw [h, List.append_eq_nil_iff] at hp hq
      rw [hp.1, hq.1]

end Reader

end StreamReader
