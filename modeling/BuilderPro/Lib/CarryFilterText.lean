import BuilderPro.Lib.CarryFilter
import Mathlib.Data.List.Count

/-!
# What a filter shows

A word that starts with a lead letter shows in the filtered text only at a lead letter inside a
sequence that was let through, unless a sequence let through can itself start it
(`exists_suffix_iff`).  Filtering a text that was filtered before leaves it as it is exactly when
nothing in it is dropped, defused or left open (`readable_iff_suffix`).  `comap` runs a filter on
letters that carry more than the filter looks at.
-/

namespace CarryFilter

variable {α β : Type*}

/-- A segment seen through `g`. -/
def Seg.map (g : β → α) : Seg β → Seg α
  | .text b => .text (g b)
  | .seq c f => .seq (c.map g) f

namespace Rules

variable (R : Rules α)

/-- `t` is the text shown from a lead letter on, that letter standing inside a sequence of `ss`
that was let through. -/
def Inner (ss : List (Seg α)) (t : List α) : Prop :=
  ∃ pre u l v f post, ss = pre ++ .seq (u ++ l :: v) f :: post ∧ f ≠ .dropped ∧ u ≠ [] ∧ R.lead l
    ∧ t = l :: v ++ R.shownAll post

theorem Inner.cons {ss : List (Seg α)} {t : List α} (s : Seg α) (h : R.Inner ss t) :
    R.Inner (s :: ss) t := by
  obtain ⟨pre, u, l, v, f, post, rfl, h⟩ := h
  exact ⟨s :: pre, u, l, v, f, post, rfl, h⟩

theorem suffix_append_cases {t xs ys : List α} (h : t <:+ xs ++ ys) :
    t <:+ ys ∨ ∃ u x v, xs = u ++ x :: v ∧ t = x :: v ++ ys := by
  obtain ⟨p, hp⟩ := h
  rcases List.append_eq_append_iff.1 hp with ⟨q, rfl, rfl⟩ | ⟨q, rfl, hq⟩
  · rcases q with _ | ⟨x, v⟩
    · exact .inl (by simp)
    · exact .inr ⟨p, x, v, rfl, rfl⟩
  · exact .inl ⟨q, hq.symm⟩

theorem inner_suffix {ss : List (Seg α)} {t : List α} (h : R.Inner ss t) :
    t <:+ R.shownAll ss := by
  obtain ⟨pre, u, l, v, f, post, rfl, hf, hu, -, rfl⟩ := h
  obtain ⟨a, u, rfl⟩ := List.exists_cons_of_ne_nil hu
  simp only [shownAll_append, shownAll_cons]
  refine List.suffix_append_of_suffix ?_
  cases f with
  | dropped => exact absurd rfl hf
  | kept => exact ⟨a :: u, by simp [shown]⟩
  | flushed => exact ⟨a :: u, by simp [shown]⟩
  | defused => exact ⟨R.defused ++ u, by simp [shown]⟩

section Suffix

variable {R} {P : List α → Prop}

/-- A lead letter in what is shown of a segment stands in the segment, and at its start only if
the segment is shown as it is. -/
theorem shown_lead (hd : ∀ a ∈ R.defused, R.lead a = false) {s : Seg α} (h : R.WF s)
    {u v : List α} {x : α} (hs : R.shown s = u ++ x :: v) (hx : R.lead x) :
    ∃ u' f, s = .seq (u' ++ x :: v) f ∧ f ≠ .dropped ∧ (u' = [] → f = .kept ∨ f = .flushed) := by
  rcases s with b | ⟨c, f⟩
  · cases h with
    | text h =>
      have hmem : x ∈ R.shown (.text b) := by rw [hs]; simp
      rw [shown, List.mem_singleton] at hmem
      rw [hmem, h] at hx
      simp at hx
  cases f with
  | dropped => simp [shown] at hs
  | kept => exact ⟨u, .kept, by rw [← hs, shown], by simp, fun _ => .inl rfl⟩
  | flushed => exact ⟨u, .flushed, by rw [← hs, shown], by simp, fun _ => .inr rfl⟩
  | defused =>
    obtain ⟨a, w, rfl, -⟩ := h.cons
    rw [shown, List.tail_cons] at hs
    have hw : ∃ q, w = q ++ x :: v := by
      rcases List.append_eq_append_iff.1 hs with ⟨q, -, hq⟩ | ⟨q, hq, hqv⟩
      · exact ⟨q, hq⟩
      · rcases q with _ | ⟨y, q⟩
        · exact ⟨[], hqv.symm⟩
        · obtain ⟨rfl, -⟩ := List.cons.inj hqv
          rw [hd x (by rw [hq]; simp)] at hx
          simp at hx
    obtain ⟨q, rfl⟩ := hw
    exact ⟨a :: q, .defused, rfl, by simp, by simp⟩

variable (hP : ∀ t, P t → ∃ l v, t = l :: v ∧ R.lead l)
  (hd : ∀ a ∈ R.defused, R.lead a = false)
  (hfirst : ∀ c f rest, R.WF (.seq c f) → f = .kept ∨ f = .flushed → ¬ P (c ++ rest))
include hP hd hfirst

theorem inner_of_suffix {ss : List (Seg α)} (hss : ∀ s ∈ ss, R.WF s) {t : List α}
    (ht : t <:+ R.shownAll ss) (hPt : P t) : R.Inner ss t := by
  induction ss with
  | nil =>
    obtain ⟨l, v, rfl, -⟩ := hP t hPt
    simp at ht
  | cons s ss ih =>
    rw [shownAll_cons] at ht
    rcases suffix_append_cases ht with ht | ⟨u, x, v, hs, rfl⟩
    · exact (ih (fun s hs => hss s (List.mem_cons_of_mem _ hs)) ht).cons R s
    have hx : R.lead x := by
      obtain ⟨l, w, hl, h⟩ := hP _ hPt
      rw [(List.cons.inj hl).1]
      exact h
    have hwf := hss s List.mem_cons_self
    obtain ⟨u', f, rfl, hf, hfst⟩ := shown_lead hd hwf hs hx
    refine ⟨[], u', x, v, f, ss, rfl, hf, fun hu => ?_, hx, rfl⟩
    subst hu
    exact hfirst _ f _ hwf (hfst rfl) hPt

/-- Words that no sequence let through can start show only from lead letters inside one. -/
theorem exists_suffix_iff {ss : List (Seg α)} (hss : ∀ s ∈ ss, R.WF s) (Q : List α → Prop) :
    (∃ t, t <:+ R.shownAll ss ∧ Q t ∧ P t) ↔ ∃ t, R.Inner ss t ∧ Q t ∧ P t := by
  constructor
  · rintro ⟨t, ht, hQ, hPt⟩
    exact ⟨t, inner_of_suffix hP hd hfirst hss ht hPt, hQ, hPt⟩
  · rintro ⟨t, ht, hQ, hPt⟩
    exact ⟨t, R.inner_suffix ht, hQ, hPt⟩

end Suffix

/-! ## Filtering twice -/

/-- Nothing of the text is dropped or defused, and no sequence is left open. -/
def Readable (b : List α) : Prop :=
  (R.read [] b).2 = [] ∧ ∀ c f, .seq c f ∈ (R.read [] b).1 → f = .kept ∨ f = .flushed

theorem shown_eq_raw {s : Seg α} (h : ∀ c f, s = .seq c f → f = .kept ∨ f = .flushed) :
    R.shown s = s.raw := by
  rcases s with b | ⟨c, f⟩
  · rfl
  · rcases h c f rfl with rfl | rfl <;> rfl

theorem Readable.feed {b : List α} (h : R.Readable b) : R.feed [] b = (b, []) := by
  have hraw := R.raw_read [] b
  rw [h.1, List.append_nil, List.nil_append] at hraw
  rw [R.feed_eq_read, h.1]
  nth_rewrite 2 [← hraw]
  congr 1
  exact List.flatMap_congr fun s hs => R.shown_eq_raw fun c f he => h.2 c f (he ▸ hs)

/-- The text starts with a sequence that is not let through as it is. -/
def Spoiled (t : List α) : Prop :=
  R.Held t ∨ ∃ w f rest, t = w ++ rest ∧ R.WF (.seq w f) ∧ (f = .dropped ∨ f = .defused)

section Spoiled

variable {R}

theorem Spoiled.cons {t : List α} (h : R.Spoiled t) : ∃ l v, t = l :: v ∧ R.lead l := by
  rcases h with h | ⟨w, f, rest, rfl, hw, -⟩
  · exact h.cons
  · obtain ⟨a, v, rfl, ha⟩ := hw.cons
    exact ⟨a, v ++ rest, rfl, ha⟩

/-- A sequence let through as it is stays so whatever follows it. -/
theorem not_spoiled {c : List α} {f : Fate} (h : R.WF (.seq c f)) (hf : f = .kept ∨ f = .flushed)
    (rest : List α) : ¬ R.Spoiled (c ++ rest) := by
  have hread : R.read [] (c ++ rest) = _ := R.read_seg h rest
  rintro (hheld | ⟨w, g, rest', hw, hwf, hg⟩)
  · have hopen := R.read_held_append hheld []
    rw [List.append_nil, hread, read_nil] at hopen
    simp at hopen
  · have hread' : R.read [] (w ++ rest') = _ := R.read_seg hwf rest'
    rw [← hw, hread] at hread'
    have hhead := (List.cons.inj (Prod.mk.inj hread').1).1
    obtain ⟨-, rfl⟩ := Seg.seq.inj hhead
    rcases hf with rfl | rfl <;> simp at hg

/-- A text is let through as it is exactly when no spoiled text starts where the filter, having
read what comes before, is in no sequence. -/
theorem readable_iff_spoiled {b : List α} :
    R.Readable b ↔ ∀ p t, p ++ t = b → (R.read [] p).2 = [] → ¬ R.Spoiled t := by
  constructor
  · rintro ⟨hopen, hsegs⟩ p t rfl hp hspoiled
    have hraw := R.raw_read [] p
    rw [hp, List.append_nil, List.nil_append] at hraw
    have hread := R.read_raw_of_wf (R.read_wf (.inl rfl) p).1 t
    rw [hraw] at hread
    rw [hread] at hopen hsegs
    rcases hspoiled with hheld | ⟨w, f, rest, rfl, hw, hf⟩
    · have ht := R.read_held_append hheld []
      rw [List.append_nil, read_nil] at ht
      rw [ht] at hopen
      exact hheld.ne_nil hopen
    · have hmem : .seq w f ∈ (R.read [] (w ++ rest)).1 := by
        have hseg : R.read [] (w ++ rest) = _ := R.read_seg hw rest
        rw [hseg]
        exact List.mem_cons_self
      rcases hf with rfl | rfl <;> simpa using hsegs w _ (List.mem_append_right _ hmem)
  · intro h
    obtain ⟨hwf, hheld⟩ := R.read_wf (.inl rfl) b
    have hraw := R.raw_read [] b
    have hground : ∀ ss ⊆ (R.read [] b).1, (R.read [] (ss.flatMap Seg.raw)).2 = [] := by
      intro ss hss
      have := R.read_raw_of_wf (fun s hs => hwf s (hss hs)) []
      rw [List.append_nil, read_nil] at this
      rw [this]
    have hopen : (R.read [] b).2 = [] := by
      rcases hheld with hnil | hheld
      · exact hnil
      · exact absurd (.inl hheld) (h _ _ hraw (hground _ (List.Subset.refl _)))
    refine ⟨hopen, fun c f hcf => ?_⟩
    obtain ⟨pre, post, hsplit⟩ := List.append_of_mem hcf
    rw [hsplit, hopen] at hraw
    have hnot : ¬ R.Spoiled (c ++ post.flatMap Seg.raw) :=
      h (pre.flatMap Seg.raw) _ (by simpa [Seg.raw] using hraw)
        (hground pre fun s hs => by rw [hsplit]; exact List.mem_append_left _ hs)
    cases f with
    | kept => exact .inl rfl
    | flushed => exact .inr rfl
    | dropped => exact absurd (.inr ⟨c, _, _, rfl, hwf _ hcf, .inl rfl⟩) hnot
    | defused => exact absurd (.inr ⟨c, _, _, rfl, hwf _ hcf, .inr rfl⟩) hnot

end Spoiled

section Lead

variable {R} (hd : ∀ a ∈ R.defused, R.lead a = false)
include hd

/-- What a filter showed, cut anywhere, passes a second time as it is unless a lead letter inside a
sequence that was let through starts a spoiled text there. -/
theorem readable_suffix_iff {ss : List (Seg α)} (hss : ∀ s ∈ ss, R.WF s) {b : List α}
    (hb : b <:+ R.shownAll ss) : R.Readable b ↔
      ∀ p t, p ++ t = b → R.Inner ss t → (R.read [] p).2 = [] → ¬ R.Spoiled t := by
  rw [readable_iff_spoiled]
  refine ⟨fun h p t hpt _ => h p t hpt, fun h p t hpt hp hspoiled => ?_⟩
  have ht : t <:+ R.shownAll ss := List.IsSuffix.trans ⟨p, hpt⟩ hb
  exact h p t hpt (inner_of_suffix (fun _ => Spoiled.cons) hd
    (fun _ _ rest hwf hf => not_spoiled hwf hf rest) hss ht hspoiled) hp hspoiled

theorem countP_defused : R.defused.countP R.lead = 0 := by
  rw [List.countP_eq_zero]
  exact fun a ha => by simp [hd a ha]

/-- Every segment keeps at most its lead letters, and keeps all of them only if it is let through
as it is. -/
theorem countP_shown {s : Seg α} (h : R.WF s) :
    (R.shown s).countP R.lead ≤ s.raw.countP R.lead ∧
      ((R.shown s).countP R.lead = s.raw.countP R.lead →
        ∀ c f, s = .seq c f → f = .kept ∨ f = .flushed) := by
  rcases s with b | ⟨c, f⟩
  · exact ⟨le_rfl, fun _ c f h => by simp at h⟩
  obtain ⟨a, w, rfl, ha⟩ := h.cons
  cases f with
  | dropped => simp [shown, Seg.raw, ha]
  | kept => simp [shown, Seg.raw]
  | flushed => simp [shown, Seg.raw]
  | defused => simp [shown, Seg.raw, ha, countP_defused hd]

theorem countP_shownAll {ss : List (Seg α)} (h : ∀ s ∈ ss, R.WF s) :
    (R.shownAll ss).countP R.lead ≤ (ss.flatMap Seg.raw).countP R.lead ∧
      ((R.shownAll ss).countP R.lead = (ss.flatMap Seg.raw).countP R.lead →
        ∀ c f, .seq c f ∈ ss → f = .kept ∨ f = .flushed) := by
  induction ss with
  | nil => simp
  | cons s ss ih =>
    obtain ⟨h1, h2⟩ := countP_shown hd (h s List.mem_cons_self)
    obtain ⟨h3, h4⟩ := ih fun s hs => h s (List.mem_cons_of_mem _ hs)
    simp only [shownAll_cons, List.flatMap_cons, List.countP_append]
    refine ⟨by omega, fun he c f hcf => ?_⟩
    rcases List.mem_cons.1 hcf with rfl | hcf
    · exact h2 (by omega) c f rfl
    · exact h4 (by omega) c f hcf

/-- A text whose filtered form keeps all of its lead letters is let through as it is. -/
theorem readable_of_countP {b : List α} (h : b.countP R.lead ≤ (R.feed [] b).1.countP R.lead) :
    R.Readable b := by
  obtain ⟨hwf, hopen⟩ := R.read_wf (.inl rfl) b
  obtain ⟨hle, heq⟩ := countP_shownAll hd hwf
  have hraw := congrArg (List.countP R.lead) (R.raw_read [] b)
  rw [R.feed_eq_read] at h
  simp only [List.countP_append, List.nil_append] at hraw h
  refine ⟨?_, heq (by omega)⟩
  rcases hopen with h0 | hheld
  · exact h0
  · obtain ⟨a, w, hw, ha⟩ := hheld.cons
    rw [hw, List.countP_cons, if_pos ha] at hraw
    omega

/-- A text comes out of the filter unchanged, or as the tail of what comes out, only if it is let
through as it is. -/
theorem readable_iff_suffix {b : List α} : b <:+ (R.feed [] b).1 ↔ R.Readable b := by
  constructor
  · intro h
    exact readable_of_countP hd (h.sublist.countP_le)
  · intro h
    rw [h.feed]

end Lead

/-! ## Letters that carry more -/

/-- The rules `R` on letters seen through `g`, with `d` standing for the replaced lead letter. -/
def comap (g : β → α) (d : List β) : Rules β where
  lead b := R.lead (g b)
  classify c := R.classify (c.map g)
  recognized c := R.recognized (c.map g)
  carryCap := R.carryCap
  recognizedCap := R.recognizedCap
  defused := d

variable {R} {g : β → α} {d : List β}

theorem step_comap (h : d.map g = R.defused) (c : List β) (b : β) :
    R.step (c.map g) (g b)
      = (((R.comap g d).step c b).1.map g, ((R.comap g d).step c b).2.map g) := by
  rcases eq_or_ne c [] with rfl | hc
  · rcases hb : R.lead (g b) <;> simp [step, comap, hb]
  · have hc' : c.map g ≠ [] := by simpa using hc
    simp only [step, if_neg hc, if_neg hc', comap, List.map_append, List.map_cons, List.map_nil,
      List.length_append, List.length_map, List.length_cons, List.length_nil]
    split <;> (try split_ifs) <;> simp [h, List.map_tail]

/-- Running on seen letters is seeing the run. -/
theorem feed_comap (h : d.map g = R.defused) (c bs : List β) :
    R.feed (c.map g) (bs.map g)
      = (((R.comap g d).feed c bs).1.map g, ((R.comap g d).feed c bs).2.map g) := by
  induction bs generalizing c with
  | nil => simp
  | cons b bs ih =>
    rw [List.map_cons, feed_cons, feed_cons, step_comap h, ih, List.map_append]

theorem fate_comap (c : List β) : (R.comap g d).fate c = R.fate (c.map g) := by
  simp only [fate, comap, List.length_map]
  cases R.classify (c.map g) <;> rfl

/-- The segments of the letters are the segments of what is seen. -/
theorem read_comap (c bs : List β) :
    R.read (c.map g) (bs.map g) = (((R.comap g d).read c bs).1.map (Seg.map g),
      ((R.comap g d).read c bs).2.map g) := by
  induction bs generalizing c with
  | nil => simp
  | cons b bs ih =>
    rcases eq_or_ne c [] with rfl | hc
    · have hl : (R.comap g d).lead b = R.lead (g b) := rfl
      rcases hb : R.lead (g b)
      · rw [List.map_nil, List.map_cons, R.read_text hb, (R.comap g d).read_text (hl.trans hb)]
        have := ih []
        rw [List.map_nil] at this
        simp [this, Seg.map]
      · rw [List.map_nil, List.map_cons, R.read_lead hb, (R.comap g d).read_lead (hl.trans hb)]
        exact ih [b]
    · have hc' : c.map g ≠ [] := by simpa using hc
      have hm : (c ++ [b]).map g = c.map g ++ [g b] := by simp
      rcases hf : R.fate (c.map g ++ [g b]) with _ | f
      · have hf' : (R.comap g d).fate (c ++ [b]) = none := by rw [fate_comap, hm, hf]
        rw [List.map_cons, R.read_held hc' hf, (R.comap g d).read_held hc hf', ← hm, ih]
      · have hf' : (R.comap g d).fate (c ++ [b]) = some f := by rw [fate_comap, hm, hf]
        rw [List.map_cons, R.read_closed hc' hf, (R.comap g d).read_closed hc hf']
        have := ih []
        rw [List.map_nil] at this
        simp [this, Seg.map]

/-! ## Letters that carry a place -/

section Places

variable {ι : Type*} (f : α → Option ι)

/-- What holds of every segment's places holds of the whole stretch's. -/
theorem filter_places_sublist {G : ι → Bool} {ss : List (Seg α)}
    (h : ∀ s ∈ ss, ((s.raw.filterMap f).filter G).Sublist ((R.shown s).filterMap f)) :
    (((ss.flatMap Seg.raw).filterMap f).filter G).Sublist ((R.shownAll ss).filterMap f) := by
  induction ss with
  | nil => simp
  | cons s ss ih =>
    simp only [List.flatMap_cons, shownAll_cons, List.filterMap_append, List.filter_append]
    exact (h s List.mem_cons_self).append (ih fun s hs => h s (List.mem_cons_of_mem _ hs))

variable {f} (hd : R.defused.filterMap f = [])
include hd

theorem places_shown_subset (s : Seg α) :
    (R.shown s).filterMap f ⊆ s.raw.filterMap f := by
  rcases s with b | ⟨c, v⟩
  · simp [shown, Seg.raw]
  · cases v with
    | dropped => simp [shown]
    | kept => simp [shown, Seg.raw]
    | flushed => simp [shown, Seg.raw]
    | defused =>
      rw [shown, List.filterMap_append, hd, List.nil_append]
      exact ((List.tail_sublist c).filterMap f).subset

theorem places_shownAll_subset (ss : List (Seg α)) :
    (R.shownAll ss).filterMap f ⊆ (ss.flatMap Seg.raw).filterMap f := by
  induction ss with
  | nil => simp
  | cons s ss ih =>
    simp only [List.flatMap_cons, shownAll_cons, List.filterMap_append]
    exact List.append_subset.2
      ⟨List.Subset.trans (places_shown_subset hd s) (List.subset_append_left _ _),
        List.Subset.trans ih (List.subset_append_right _ _)⟩

/-- Where no two letters have one place, a dropped sequence's places do not show. -/
theorem not_mem_of_dropped {pre post : List (Seg α)} {c r : List α} {i : ι}
    (hnd : (((pre ++ .seq c .dropped :: post).flatMap Seg.raw ++ r).filterMap f).Nodup)
    (hi : i ∈ c.filterMap f) :
    i ∉ (R.shownAll (pre ++ .seq c .dropped :: post) ++ r).filterMap f := by
  simp only [List.flatMap_append, List.flatMap_cons, Seg.raw, List.filterMap_append,
    List.append_assoc] at hnd
  rw [List.nodup_append] at hnd
  obtain ⟨-, hnd, hpre⟩ := hnd
  rw [List.nodup_append] at hnd
  obtain ⟨-, -, hpost⟩ := hnd
  simp only [shownAll_append, shownAll_cons, shown, List.nil_append, List.filterMap_append,
    List.mem_append]
  rintro ((h | h) | h)
  · exact hpre i (places_shownAll_subset hd _ h) i (List.mem_append_left _ hi) rfl
  · exact hpost i hi i (List.mem_append_left _ (places_shownAll_subset hd _ h)) rfl
  · exact hpost i hi i (List.mem_append_right _ h) rfl

end Places

end Rules

end CarryFilter
