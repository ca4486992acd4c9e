import BuilderPro.Lib.CarryFilterText
import BuilderPro.Sessiond.LiveStrip
import BuilderPro.Sessiond.OscParser

/-!
# The bytes the tokenizer takes for text

The tokenizer and the live stripper read one stream.  A byte the tokenizer reads in its ground
state reaches the client, or waits in the carry, unless the stripper drops a sequence that the
tokenizer already took for closed before its end (`ground_survives_iff`).
-/

namespace BuilderPro

open CarryFilter OscParser

/-! ## Bytes with their places -/

namespace Live

/-- Bytes with their places in the stream, from `n` on. -/
def traced (n : ℕ) : List UInt8 → List (Option ℕ × UInt8)
  | [] => []
  | b :: bs => (some n, b) :: traced (n + 1) bs

def tracedChunks (n : ℕ) : List (List UInt8) → List (List (Option ℕ × UInt8))
  | [] => []
  | c :: cs => traced n c :: tracedChunks (n + c.length) cs

/-- The stripper on bytes with places; the U+FFFD it puts in has none. -/
def tracedRules : Rules (Option ℕ × UInt8) := rules.comap Prod.snd (fffd.map (Prod.mk none))

@[simp] theorem traced_map_snd (n : ℕ) (bs : List UInt8) : (traced n bs).map Prod.snd = bs := by
  induction bs generalizing n with
  | nil => rfl
  | cons b bs ih => simp [traced, ih]

theorem traced_append (n : ℕ) (xs ys : List UInt8) :
    traced n (xs ++ ys) = traced n xs ++ traced (n + xs.length) ys := by
  induction xs generalizing n with
  | nil => rfl
  | cons b xs ih => simp [traced, ih, Nat.add_assoc, Nat.add_comm 1]

theorem tracedChunks_flatten (n : ℕ) (chunks : List (List UInt8)) :
    (tracedChunks n chunks).flatten = traced n chunks.flatten := by
  induction chunks generalizing n with
  | nil => rfl
  | cons c cs ih => simp [tracedChunks, ih, traced_append]

theorem traced_places (n : ℕ) (bs : List UInt8) :
    (traced n bs).filterMap Prod.fst = List.range' n bs.length := by
  induction bs generalizing n with
  | nil => rfl
  | cons b bs ih => simp [traced, ih, List.range'_succ]

/-- A stretch of a placed stream is placed by what stands before it. -/
theorem traced_split {n : ℕ} {w : List UInt8} {A c B : List (Option ℕ × UInt8)}
    (h : A ++ (c ++ B) = traced n w) :
    ∃ A' c' B', w = A' ++ (c' ++ B') ∧ A = traced n A' ∧ c = traced (n + A'.length) c' := by
  have hw : w = A.map Prod.snd ++ (c.map Prod.snd ++ B.map Prod.snd) := by
    rw [← traced_map_snd n w, ← h, List.map_append, List.map_append]
  refine ⟨_, _, _, hw, ?_⟩
  rw [hw, traced_append, traced_append] at h
  have hl : ∀ (m : ℕ) (l : List (Option ℕ × UInt8)),
      (traced m (l.map Prod.snd)).length = l.length :=
    fun m l => by rw [← List.length_map (f := Prod.snd), traced_map_snd, List.length_map]
  obtain ⟨h1, h2⟩ := List.append_inj h (hl n A).symm
  exact ⟨h1, (List.append_inj h2 (hl _ c).symm).1⟩

end Live

namespace LiveOscStripper

open Live

/-- The places of the bytes that were sent or still wait in the carry. -/
def survivors (chunks : List (List UInt8)) : List ℕ :=
  let r := tracedRules.feedAll [] (tracedChunks 0 chunks)
  (r.1 ++ r.2).filterMap Prod.fst

/-- Without the places, this is the stripper's run. -/
theorem traced_stripAll (chunks : List (List UInt8)) :
    (tracedRules.feedAll [] (tracedChunks 0 chunks)).1.map Prod.snd = (new.stripAll chunks).1
      ∧ (tracedRules.feedAll [] (tracedChunks 0 chunks)).2.map Prod.snd
        = (new.stripAll chunks).2.carry := by
  have h := Rules.feed_comap (R := rules) (g := Prod.snd)
    (d := fffd.map (Prod.mk (none : Option ℕ))) (by simp [rules, Function.comp_def]) []
    (traced 0 chunks.flatten)
  have hs := new.stripAll_eq chunks
  rw [traced_map_snd, List.map_nil] at h
  rw [show new.carry = [] from rfl, h] at hs
  rw [Rules.feedAll_eq, tracedChunks_flatten]
  exact ⟨(congrArg Prod.fst hs).symm, (congrArg Prod.snd hs).symm⟩

end LiveOscStripper

/-! ## Ground bytes -/

namespace OscParser

/-- Whether the tokenizer takes the byte at place `i` for text: it reads it in its ground state, and
the byte is not the ESC of an OSC. -/
def isGround (stream : List UInt8) (i : ℕ) : Bool :=
  (new.feed (stream.take i)).2.state = .ground ∧ ¬ [esc, ch ']'] <+: stream.drop i

def groundPlaces (stream : List UInt8) : List ℕ :=
  (List.range stream.length).filter (isGround stream)

theorem isGround_split {w A c B : List UInt8} (h : w = A ++ (c ++ B)) {j : ℕ} (hj : j ≤ c.length) :
    isGround w (A.length + j) = true ↔
      (((new.feed A).2.feed (c.take j)).2.state = .ground ∧ ¬ [esc, ch ']'] <+: c.drop j ++ B) := by
  subst h
  have h1 : (A ++ (c ++ B)).take (A.length + j) = A ++ c.take j := by
    rw [List.take_length_add_append, List.take_append_of_le_length hj]
  have h2 : (A ++ (c ++ B)).drop (A.length + j) = c.drop j ++ B := by
    rw [List.drop_length_add_append, List.drop_append_of_le_length hj]
  rw [isGround, h1, h2, feed_append, decide_eq_true_eq]

section Steps

variable (p : OscParser) {b : UInt8}

/-- `ESC ]` opens an OSC whatever was open. -/
theorem esc_osc_state : (p.feed [esc, ch ']']).2.state = .osc := by
  simp only [feed_cons, feed_nil]
  rcases h : p.state
  · rw [step_ground_esc h, step_escape_osc rfl]
  · rw [step_escape_esc h, step_escape_osc rfl]
  · rw [step_osc_esc h, step_oscEsc_osc rfl]
  · rw [step_oscEsc_esc h, step_oscEsc_osc rfl]

/-- ESC and a byte that opens no OSC return to ground, whatever was open. -/
theorem esc_other_state (hb : b ≠ ch ']') (he : b ≠ esc) :
    (p.feed [esc, b]).2.state = .ground := by
  simp only [feed_cons, feed_nil]
  rcases h : p.state
  · rw [step_ground_esc h, step_escape rfl hb he]
  · rw [step_escape_esc h, step_escape rfl hb he]
  · rw [step_osc_esc h, step_oscEsc rfl hb he]
  · rw [step_oscEsc_esc h, step_oscEsc rfl hb he]

/-- What an OSC without BEL has read, by the state it left the tokenizer in. -/
def SinceOsc (x : List UInt8) : State → Prop
  | .ground => ∃ u b z, x = u ++ esc :: b :: z ∧ b ≠ ch ']' ∧ b ≠ esc ∧ esc ∉ z
  | .escape => ∃ u, x = u ++ [esc]
  | .osc => True
  | .oscEsc => ∃ u, x = u ++ [esc]

variable {p}

theorem SinceOsc.step {x : List UInt8} (h : SinceOsc x p.state) (hb : b ≠ bel) :
    SinceOsc (x ++ [b]) (p.step b).2.state := by
  rcases hp : p.state
  · rw [hp] at h
    obtain ⟨u, a, z, rfl, ha, he, hz⟩ := h
    by_cases hbe : b = esc
    · subst hbe
      rw [step_ground_esc hp]
      exact ⟨_, rfl⟩
    · rw [step_ground hp hbe, hp]
      exact ⟨u, a, z ++ [b], by simp, ha, he, by simp [hz, Ne.symm hbe]⟩
  · rw [hp] at h
    obtain ⟨u, rfl⟩ := h
    by_cases hbo : b = ch ']'
    · subst hbo
      rw [step_escape_osc hp]
      trivial
    by_cases hbe : b = esc
    · subst hbe
      rw [step_escape_esc hp]
      exact ⟨_, rfl⟩
    · rw [step_escape hp hbo hbe]
      exact ⟨u, b, [], by simp, hbo, hbe, by simp⟩
  · by_cases hbe : b = esc
    · subst hbe
      rw [step_osc_esc hp]
      exact ⟨_, rfl⟩
    · rw [step_osc hp hb hbe, show (p.pushOscByte b).state = .osc from
        (pushOscByte_state p b).trans hp]
      trivial
  · rw [hp] at h
    obtain ⟨u, rfl⟩ := h
    by_cases hbo : b = ch ']'
    · subst hbo
      rw [step_oscEsc_osc hp]
      trivial
    by_cases hbe : b = esc
    · subst hbe
      rw [step_oscEsc_esc hp]
      exact ⟨_, rfl⟩
    · rw [step_oscEsc hp hbo hbe]
      exact ⟨u, b, [], by simp, hbo, hbe, by simp⟩

theorem SinceOsc.feed (hp : p.state = .osc) {x : List UInt8} (hx : bel ∉ x) :
    SinceOsc x (p.feed x).2.state := by
  induction x using List.reverseRecOn with
  | nil => rw [feed_nil, hp]; trivial
  | append_singleton x b ih =>
    simp only [List.mem_append, List.mem_singleton, not_or] at hx
    rw [feed_append]
    exact (ih hx.1).step (Ne.symm hx.2)

end Steps

end OscParser

/-! ## Dropped sequences -/

namespace Live

/-- Past its first bytes the sequence has an ESC that a byte other than `]` follows, and goes on
after the two with more than a new OSC. -/
def ResumesIn (c : List UInt8) : Prop :=
  ∃ u b v, c = u ++ esc :: b :: v ∧ b ≠ esc ∧ b ≠ ch ']' ∧ v ≠ [] ∧ ¬ [esc, ch ']'] <+: v

theorem classify_esc_osc (q : List UInt8) : rules.classify (esc :: ch ']' :: q) =
    if Osc.terminated q then if markIdents.contains (Osc.ident q) then .drop else .keep
    else .incomplete := by
  rcases h : Osc.terminated q <;> simp [rules, classify, classifyOsc, Osc.classify, h]

theorem dropped_cons {c : List UInt8} (h : rules.WF (.seq c .dropped)) :
    ∃ q, c = esc :: ch ']' :: q := by
  obtain ⟨a, t, rfl, ha⟩ := h.cons
  obtain rfl : a = esc := by simpa [rules] using ha
  have hdrop := rules.fate_eq_dropped.1 h.fate
  rcases t with _ | ⟨b, q⟩
  · exact absurd hdrop (by decide)
  refine ⟨q, ?_⟩
  by_contra hb
  have hkeep : rules.classify (esc :: b :: q) = .keep := by
    simp only [rules, classify]
    rw [if_pos (fun h => hb (by rw [h]))]
  rw [hkeep] at hdrop
  exact Verdict.noConfusion hdrop

theorem defused_cons {c : List UInt8} (h : rules.WF (.seq c .defused)) :
    ∃ q, c = esc :: ch ']' :: q := by
  have hrec : Osc.recognized markIdents c = true := (rules.fate_eq_defused.1 h.fate).2.1
  unfold Osc.recognized at hrec
  split at hrec
  · rename_i e r body
    have h1 : ¬ (e != esc || r != ch ']') = true := fun h1 => by simp [h1] at hrec
    simp only [bne_iff_ne, Bool.or_eq_true, not_or, not_not] at h1
    exact ⟨body, by rw [h1.1, h1.2]⟩
  · simp at hrec

/-- A dropped sequence has no BEL before its end. -/
theorem dropped_no_bel {x y : List UInt8} (hy : y ≠ [])
    (h : rules.WF (.seq (esc :: ch ']' :: (x ++ y)) .dropped)) : bel ∉ x := by
  intro hb
  obtain ⟨s, t, rfl⟩ := List.append_of_mem hb
  have hheld : rules.Held (esc :: ch ']' :: (s ++ [bel])) := by
    refine h.of_prefix ⟨t ++ y, by simp⟩ (by simp) fun he => hy ?_
    simp only [List.append_assoc, List.cons_append, List.cons.injEq, true_and,
      List.append_cancel_left_eq] at he
    exact (List.append_eq_nil_iff.1 he.symm).2
  have hcls := rules.classify_of_fate_none (hheld.fate (by simp))
  have hterm : Osc.terminated (s ++ [bel]) = true := by
    simp [Osc.terminated, List.isSuffixOf_iff_suffix]
  rw [classify_esc_osc, hterm, if_pos rfl] at hcls
  split_ifs at hcls

/-- A dropped sequence does not end in ESC. -/
theorem dropped_last_ne {t : List UInt8} : ¬ rules.WF (.seq (t ++ [esc]) .dropped) := by
  intro h
  obtain ⟨q, hq⟩ := dropped_cons h
  have hdrop := rules.fate_eq_dropped.1 h.fate
  rw [hq, classify_esc_osc] at hdrop
  have hterm : Osc.terminated q = true := by
    by_contra hn
    rw [if_neg hn] at hdrop
    exact Verdict.noConfusion hdrop
  simp only [Osc.terminated, Bool.or_eq_true, List.isSuffixOf_iff_suffix] at hterm
  rcases hterm with ⟨r, rfl⟩ | ⟨r, rfl⟩
  · have h1 : t ++ [esc] = (esc :: ch ']' :: r) ++ [bel] := hq
    have := (List.append_inj' h1 rfl).2
    revert this
    decide
  · have h1 : t ++ [esc] = (esc :: ch ']' :: (r ++ [esc])) ++ [ch '\\'] := by simpa using hq
    have := (List.append_inj' h1 rfl).2
    revert this
    decide

/-- In a dropped sequence the tokenizer reads a byte in its ground state only past such an ESC. -/
theorem resumesIn_of_ground {p : OscParser} {x y B : List UInt8} (hy : y ≠ [])
    (h : rules.WF (.seq (x ++ y) .dropped)) (hp : (p.feed x).2.state = .ground)
    (hx : x ≠ []) (hB : ¬ [esc, ch ']'] <+: y ++ B) : ResumesIn (x ++ y) := by
  obtain ⟨q, hq⟩ := dropped_cons h
  obtain ⟨e, x, rfl⟩ := List.exists_cons_of_ne_nil hx
  obtain ⟨rfl, hq'⟩ := List.cons.inj hq
  rcases x with _ | ⟨r, x⟩
  · -- after the opening ESC alone the tokenizer is in no ground state
    exfalso
    simp only [feed_cons, feed_nil] at hp
    rcases hs : p.state
    · simp [step_ground_esc hs] at hp
    · simp [step_escape_esc hs] at hp
    · simp [step_osc_esc hs] at hp
    · simp [step_oscEsc_esc hs] at hp
  obtain ⟨rfl, -⟩ := List.cons.inj hq'
  rw [show esc :: ch ']' :: x = [esc, ch ']'] ++ x from rfl, feed_append] at hp
  have hsince := SinceOsc.feed p.esc_osc_state (x := x) (dropped_no_bel hy h)
  rw [hp] at hsince
  obtain ⟨u, b, z, rfl, hb, he, hz⟩ := hsince
  refine ⟨esc :: ch ']' :: u, b, z ++ y, by simp, he, hb, by simp [hy], fun hpre => ?_⟩
  rcases z with _ | ⟨a, z⟩
  · exact hB (hpre.trans (List.prefix_append y B))
  · exact hz (by simp [(List.cons_prefix_cons.1 hpre).1])

end Live

namespace LiveOscStripper

open Live

section Segments

variable {w : List UInt8}

/-- Where a placed segment stands in the stream. -/
theorem segment_at {s : Seg (Option ℕ × UInt8)} (hs : s ∈ (tracedRules.read [] (traced 0 w)).1) :
    ∃ A c B, w = A ++ (c ++ B) ∧ s.raw = traced A.length c ∧ rules.WF (s.map Prod.snd)
      ∧ s.map Prod.snd ∈ segments w := by
  have hraw := tracedRules.raw_read [] (traced 0 w)
  have hmap := Rules.read_comap (R := rules) (g := Prod.snd)
    (d := fffd.map (Prod.mk (none : Option ℕ))) [] (traced 0 w)
  have hmem : s.map Prod.snd ∈ segments w := by
    rw [segments, ← traced_map_snd 0 w]
    rw [List.map_nil] at hmap
    rw [hmap]
    exact List.mem_map_of_mem hs
  obtain ⟨pre, post, hsplit⟩ := List.append_of_mem hs
  rw [hsplit] at hraw
  simp only [List.flatMap_append, List.flatMap_cons, List.append_assoc, List.nil_append] at hraw
  obtain ⟨A, c, B, hw, -, hc⟩ := traced_split hraw
  refine ⟨A, c, B, hw, ?_, segments_wf w _ hmem, hmem⟩
  rwa [Nat.zero_add] at hc

/-- A dropped sequence of the stream, with the places of its bytes. -/
theorem dropped_traced {c : List UInt8} (h : .seq c .dropped ∈ segments w) :
    ∃ pre d post, (tracedRules.read [] (traced 0 w)).1 = pre ++ .seq d .dropped :: post
      ∧ c = d.map Prod.snd := by
  have hmap := Rules.read_comap (R := rules) (g := Prod.snd)
    (d := fffd.map (Prod.mk (none : Option ℕ))) [] (traced 0 w)
  rw [traced_map_snd, List.map_nil] at hmap
  rw [segments, hmap] at h
  obtain ⟨s, hs, hsc⟩ := List.mem_map.1 h
  obtain ⟨pre, post, hsplit⟩ := List.append_of_mem hs
  rcases s with b | ⟨d, f⟩
  · simp [Seg.map] at hsc
  · simp only [Seg.map, Seg.seq.injEq] at hsc
    obtain ⟨rfl, rfl⟩ := hsc
    exact ⟨pre, d, post, hsplit, rfl⟩

/-- The tokenizer takes nothing of a dropped sequence for text unless it resumes in it. -/
theorem dropped_not_ground {A c B : List UInt8} (hw : w = A ++ (c ++ B))
    (h : rules.WF (.seq c .dropped)) (hr : ¬ ResumesIn c) {j : ℕ} (hj : j < c.length) :
    isGround w (A.length + j) = false := by
  rw [← Bool.not_eq_true, isGround_split hw hj.le]
  rintro ⟨hst, hpre⟩
  obtain ⟨q, rfl⟩ := dropped_cons h
  rcases j with _ | j
  · exact hpre (by simp)
  · refine hr ?_
    rw [← List.take_append_drop (j + 1) (esc :: ch ']' :: q)] at h ⊢
    exact resumesIn_of_ground (by simpa using hj) h hst (by simp) hpre

/-- A place the tokenizer resumes at in a dropped sequence. -/
theorem exists_ground_of_resumesIn {A c B : List UInt8} (hw : w = A ++ (c ++ B))
    (h : rules.WF (.seq c .dropped)) (hr : ResumesIn c) :
    ∃ j < c.length, isGround w (A.length + j) = true := by
  obtain ⟨u, b, v, rfl, he, hb, hv, hpre⟩ := hr
  have hv' := List.length_pos_iff.2 hv
  refine ⟨u.length + 2, by simp; omega, ?_⟩
  rw [isGround_split hw (by simp)]
  have htake : (u ++ esc :: b :: v).take (u.length + 2) = u ++ [esc, b] := by
    simp [List.take_length_add_append]
  have hdrop : (u ++ esc :: b :: v).drop (u.length + 2) = v := by
    simp [List.drop_length_add_append]
  rw [htake, hdrop, feed_append]
  refine ⟨esc_other_state _ hb he, fun hp => ?_⟩
  -- the sequence ends in BEL or `ESC \`, so no `ESC ]` starts at its last byte
  rcases v with _ | ⟨a, _ | ⟨a', v⟩⟩
  · exact hv rfl
  · obtain rfl : esc = a := (List.cons_prefix_cons.1 hp).1
    exact dropped_last_ne (t := u ++ [esc, b]) (by simpa using h)
  · exact hpre (by simpa [List.cons_prefix_cons] using hp)

/-- Of a segment's bytes the tokenizer takes for text, none is lost unless the segment is dropped
and the tokenizer resumes in it. -/
theorem segment_ground_sublist {s : Seg (Option ℕ × UInt8)}
    (hs : s ∈ (tracedRules.read [] (traced 0 w)).1)
    (hr : ∀ c, .seq c .dropped ∈ segments w → ¬ ResumesIn c) :
    ((s.raw.filterMap Prod.fst).filter (isGround w)).Sublist
      ((tracedRules.shown s).filterMap Prod.fst) := by
  obtain ⟨A, c, B, hw, hc, hwf, hmem⟩ := segment_at hs
  rcases s with b | ⟨d, f⟩
  · exact List.filter_sublist
  have hcd : d.map Prod.snd = c := by rw [show d = traced A.length c from hc, traced_map_snd]
  rw [Seg.map, hcd] at hwf hmem
  cases f with
  | dropped =>
    have hnil : ((Seg.seq d .dropped).raw.filterMap Prod.fst).filter (isGround w) = [] := by
      rw [hc, traced_places, List.filter_eq_nil_iff]
      intro i hi
      obtain ⟨j, hj, rfl⟩ := List.mem_range'.1 hi
      rw [Nat.one_mul, dropped_not_ground hw hwf (hr c hmem) hj]
      simp
    rw [hnil]
    exact List.nil_sublist _
  | kept => exact List.filter_sublist
  | flushed => exact List.filter_sublist
  | defused =>
    obtain ⟨q, rfl⟩ := defused_cons hwf
    have hlead : isGround w A.length = false := by
      rw [← Bool.not_eq_true, show A.length = A.length + 0 from rfl, isGround_split hw (by simp)]
      rintro ⟨-, hpre⟩
      exact hpre (by simp)
    have hshown : (tracedRules.shown (.seq d .defused)).filterMap Prod.fst
        = (traced (A.length + 1) (ch ']' :: q)).filterMap Prod.fst := by
      rw [show d = traced A.length (esc :: ch ']' :: q) from hc]
      rfl
    rw [hshown, hc, traced, List.filterMap_cons_some (f := Prod.fst) rfl,
      List.filter_cons_of_neg (by simp [hlead])]
    exact List.filter_sublist

end Segments

/-- Every byte the tokenizer takes for text is sent or pending, in order, exactly when the stripper
drops no sequence in which the tokenizer resumes reading text. -/
theorem ground_survives_iff (chunks : List (List UInt8)) :
    (groundPlaces chunks.flatten).Sublist (survivors chunks) ↔
      ∀ c, .seq c .dropped ∈ segments chunks.flatten → ¬ ResumesIn c := by
  set w := chunks.flatten with hw
  set r := tracedRules.read [] (traced 0 w) with hr
  have hsurv : survivors chunks = (tracedRules.shownAll r.1 ++ r.2).filterMap Prod.fst := by
    rw [survivors, Rules.feedAll_eq, tracedChunks_flatten, Rules.feed_eq_read]
  have hplaces : (r.1.flatMap Seg.raw ++ r.2).filterMap Prod.fst = List.range w.length := by
    rw [hr, Rules.raw_read, List.nil_append, traced_places, List.range_eq_range']
  rw [hsurv]
  constructor
  · intro h c hc hres
    obtain ⟨pre, d, post, hsplit, rfl⟩ := dropped_traced hc
    obtain ⟨A, c', B, hwc, hd, hwf, -⟩ := segment_at (w := w) (s := .seq d .dropped)
      (by rw [hsplit]; simp)
    have hcd : d.map Prod.snd = c' := by rw [show d = traced A.length c' from hd, traced_map_snd]
    rw [hcd] at hres
    rw [Seg.map, hcd] at hwf
    obtain ⟨j, hj, hg⟩ := exists_ground_of_resumesIn hwc hwf hres
    have hlt : A.length + j < w.length := by rw [hwc]; simp; omega
    have hmem := h.subset (List.mem_filter.2 ⟨List.mem_range.2 hlt, hg⟩)
    rw [← hr] at hsplit
    rw [hsplit] at hmem hplaces
    refine Rules.not_mem_of_dropped (by simp [tracedRules, Rules.comap]) ?_ ?_ hmem
    · rw [hplaces]
      exact List.nodup_range
    · rw [show d = traced A.length c' from hd, traced_places]
      exact List.mem_range'.2 ⟨j, hj, by omega⟩
  · intro h
    rw [groundPlaces, ← hplaces, List.filterMap_append, List.filterMap_append, List.filter_append]
    exact (Rules.filter_places_sublist Prod.fst
      fun s hs => segment_ground_sublist hs h).append List.filter_sublist

/-- `ESC ] 133 ; A ESC [ m h i BEL`: the tokenizer reads `hi` as text after the mark that `ESC [`
ended; the stripper drops it with the mark. -/
theorem implicit_terminator_swallows : ¬ ∀ chunks : List (List UInt8),
    (groundPlaces chunks.flatten).Sublist (survivors chunks) := by
  intro h
  have := h [[esc, ch ']', ch '1', ch '3', ch '3', ch ';', ch 'A', esc, ch '[', ch 'm', ch 'h',
    ch 'i', bel]]
  revert this
  decide

end LiveOscStripper

end BuilderPro
