import BuilderPro.Lib.RegExp

/-!
# Patterns that take the longest match

A backtracking pattern takes the match it prefers.  Where nothing can follow a match that could have
been longer, that is the longest (`Greedy`, `Longest`), and so is every match of a search
(`maximal_of_mem_execAll`).
-/

namespace RegExp

variable {α : Type*} {r s : RegExp α} {q : α → Prop} {xs rest mid w v text : List α} {x : α}
  {m : ℕ × ℕ × ℕ} {n : ℕ}

theorem matches_nil (hr : r.nullable = true) : r.Matches [] := by
  induction r with
  | one p => cases hr
  | seq r s ihr ihs =>
    obtain ⟨hr, hs⟩ := Bool.and_eq_true_iff.1 hr
    exact ⟨[], [], ihr hr, ihs hs, rfl⟩
  | alt r s ihr ihs => exact (Bool.or_eq_true_iff.1 hr).imp ihr ihs
  | opt r => exact .inl rfl
  | star r => exact .nil

theorem matches_star_one {p : α → Bool} (h : ∀ x ∈ w, p x = true) : (star (one p)).Matches w := by
  induction w with
  | nil => exact .nil
  | cons x w ih =>
    exact .cons (v := [x]) ⟨x, h x (by simp), rfl⟩ (by simp) (ih fun y hy => h y (by simp [hy]))

/-- The units with which a pattern's words begin. -/
def begins : RegExp α → α → Bool
  | one p, x => p x
  | seq r s, x => r.begins x || r.nullable && s.begins x
  | alt r s, x => r.begins x || s.begins x
  | opt r, x => r.begins x
  | star r, x => r.begins x

theorem begins_seq (hr : r.nullable = false) : (seq r s).begins x = r.begins x := by
  simp [begins, hr]

theorem nullable_of_matches (h : r.Matches []) : r.nullable = true := by
  by_contra hne
  exact ne_nil_of_matches (Bool.eq_false_iff.2 hne) h rfl

theorem begins_of_matches (h : r.Matches (x :: w)) : r.begins x = true := by
  induction r generalizing x w with
  | one p =>
    obtain ⟨y, hy, heq⟩ := h
    rwa [(List.cons.inj heq).1]
  | seq r s ihr ihs =>
    obtain ⟨u, v, hu, hv, heq⟩ := h
    rw [begins, Bool.or_eq_true_iff, Bool.and_eq_true_iff]
    cases u with
    | nil =>
      rw [List.nil_append] at heq
      exact .inr ⟨nullable_of_matches hu, ihs (heq ▸ hv)⟩
    | cons y u => exact .inl ((List.cons.inj heq).1 ▸ ihr hu)
  | alt r s ihr ihs => exact Bool.or_eq_true_iff.2 (h.imp ihr ihs)
  | opt r ih =>
    rcases h with h | h
    · cases h
    · exact ih h
  | star r ih =>
    change Star r.Matches (x :: w) at h
    generalize hxs : x :: w = xs at h
    cases h with
    | nil => cases hxs
    | @cons v t hv hne _ =>
      obtain ⟨y, v, rfl⟩ := List.exists_cons_of_ne_nil hne
      exact (List.cons.inj hxs).1 ▸ ih hv

/-- Every unit that a pattern takes is of a kind. -/
def Over (q : α → Prop) : RegExp α → Prop
  | one p => ∀ x, p x = true → q x
  | seq r s => r.Over q ∧ s.Over q
  | alt r s => r.Over q ∧ s.Over q
  | opt r => r.Over q
  | star r => r.Over q

theorem Over.of_matches (hr : r.Over q) (h : r.Matches w) : ∀ x ∈ w, q x := by
  induction r generalizing w with
  | one p =>
    obtain ⟨x, hx, rfl⟩ := h
    simpa using hr x hx
  | seq r s ihr ihs =>
    obtain ⟨u, v, hu, hv, rfl⟩ := h
    exact List.forall_mem_append.2 ⟨ihr hr.1 hu, ihs hr.2 hv⟩
  | alt r s ihr ihs => exact h.elim (ihr hr.1) (ihs hr.2)
  | opt r ih =>
    rcases h with rfl | h
    · simp
    · exact ih hr h
  | star r ih =>
    change Star r.Matches w at h
    induction h with
    | nil => simp
    | cons hv _ _ ihw => exact List.forall_mem_append.2 ⟨ih hr hv, ihw⟩

/-! ### The longest match -/

/-- The longer match is preferred, and there is one way to each. -/
def Greedy (r : RegExp α) : Prop := ∀ xs, (r.ends xs).Pairwise fun a b => a.length < b.length

/-- No match is longer than the one that is preferred. -/
def Longest (r : RegExp α) : Prop :=
  ∀ xs rest, (r.ends xs).head? = some rest → ∀ rest' ∈ r.ends xs, rest.length ≤ rest'.length

/-- Where a match could have been longer, nothing of what it leaves is taken. -/
def Stops (r s : RegExp α) : Prop :=
  ∀ xs, ∀ a ∈ r.ends xs, ∀ b ∈ r.ends xs, a.length < b.length → ∀ b' ∈ s.ends b, b' = b

theorem length_le_of_mem_ends (h : rest ∈ r.ends xs) : rest.length ≤ xs.length := by
  obtain ⟨w, -, rfl⟩ := mem_ends.1 h
  simp

theorem Greedy.longest (hr : r.Greedy) : r.Longest := by
  intro xs rest hhead rest' hmem
  obtain ⟨l, hl⟩ := List.head?_eq_some_iff.1 hhead
  have hpairwise := hr xs
  rw [hl] at hpairwise hmem
  rcases List.mem_cons.1 hmem with rfl | hmem
  · exact Nat.le_refl _
  · exact Nat.le_of_lt ((List.pairwise_cons.1 hpairwise).1 rest' hmem)

theorem greedy_one (p : α → Bool) : (one p).Greedy := by
  intro xs
  cases xs with
  | nil => exact .nil
  | cons x xs =>
    unfold ends
    split_ifs
    · exact List.pairwise_singleton _ _
    · exact .nil

theorem greedy_opt (hr : r.Greedy) : (opt r).Greedy := fun xs =>
  List.pairwise_append.2 ⟨(hr xs).sublist List.filter_sublist, List.pairwise_singleton _ _,
    fun a ha b hb => by simpa [List.mem_singleton.1 hb] using (List.mem_filter.1 ha).2⟩

theorem greedy_seq (hr : r.Greedy) (hs : s.Greedy)
    (h : ∀ xs, ∀ a ∈ r.ends xs, ∀ b ∈ r.ends xs, a.length < b.length →
      ∀ a' ∈ s.ends a, ∀ b' ∈ s.ends b, a'.length < b'.length) : (seq r s).Greedy := fun xs =>
  List.pairwise_flatMap.2 ⟨fun a _ => hs a, (hr xs).imp_of_mem fun ha hb => h xs _ ha _ hb⟩

theorem greedy_seq_of_stops (hr : r.Greedy) (hs : s.Greedy) (h : r.Stops s) : (seq r s).Greedy := by
  refine greedy_seq hr hs fun xs a ha b hb hlt a' ha' b' hb' => ?_
  rw [h xs a ha b hb hlt b' hb']
  exact Nat.lt_of_le_of_lt (length_le_of_mem_ends ha') hlt

/-- A repetition goes on only after its longest turns. -/
theorem iterate_of_stops {f : List α → List (List α)} (h : ∀ b' ∈ f xs, b' = xs) :
    iterate f n xs = [xs] := by
  cases n with
  | zero => rfl
  | succ n =>
    have hnil : (f xs).filter (fun rest => rest.length < xs.length) = [] :=
      List.filter_eq_nil_iff.2 fun b hb => by simp [h b hb]
    rw [iterate, hnil]
    rfl

theorem stops_star (h : r.Stops r) : r.Stops (star r) := by
  intro xs a ha b hb hlt b' hb'
  rw [ends, iterate_of_stops (h xs a ha b hb hlt)] at hb'
  exact List.mem_singleton.1 hb'

theorem greedy_star (hr : r.Greedy) (h : r.Stops r) : (star r).Greedy := by
  have hle (n : ℕ) (xs rest : List α) (hmem : rest ∈ iterate r.ends n xs) :
      rest.length ≤ xs.length := by
    obtain ⟨w, -, rfl⟩ := exists_of_mem_iterate (fun xs rest => mem_ends.1) hmem
    simp
  have hiterate (n : ℕ) (xs : List α) :
      (iterate r.ends n xs).Pairwise fun a b => a.length < b.length := by
    induction n generalizing xs with
    | zero => exact List.pairwise_singleton _ _
    | succ n ih =>
      rw [iterate]
      refine List.pairwise_append.2 ⟨List.pairwise_flatMap.2 ⟨fun a _ => ih a, ?_⟩,
        List.pairwise_singleton _ _, fun a ha b hb => ?_⟩
      · refine ((hr xs).sublist List.filter_sublist).imp_of_mem ?_
        intro a b ha hb hlt a' ha' b' hb'
        have hstops := h xs a (List.mem_filter.1 ha).1 b (List.mem_filter.1 hb).1 hlt
        rw [iterate_of_stops hstops] at hb'
        rw [List.mem_singleton.1 hb']
        exact Nat.lt_of_le_of_lt (hle n a a' ha') hlt
      · obtain ⟨mid, hmid, ha⟩ := List.mem_flatMap.1 ha
        rw [List.mem_singleton.1 hb]
        exact Nat.lt_of_le_of_lt (hle n mid a ha) (by simpa using (List.mem_filter.1 hmid).2)
  exact fun xs => hiterate xs.length xs

theorem greedy_plus (hr : r.Greedy) (h : r.Stops r) : (plus r).Greedy :=
  greedy_seq_of_stops hr (greedy_star hr h) (stops_star h)

/-- Of two matches of one text, the longer goes on where the shorter ends. -/
theorem exists_of_length_lt {a b : List α} (ha : a ∈ r.ends xs) (hb : b ∈ r.ends xs)
    (hlt : a.length < b.length) :
    ∃ w x t, r.Matches w ∧ r.Matches (w ++ x :: t) ∧ b = x :: t ++ a := by
  obtain ⟨u, hu, rfl⟩ := mem_ends.1 ha
  obtain ⟨w, hw, heq⟩ := mem_ends.1 hb
  obtain ⟨t, rfl, rfl⟩ | ⟨t, rfl, rfl⟩ := List.append_eq_append_iff.1 heq
  · simp only [List.length_append] at hlt
    omega
  · cases t with
    | nil => simp at hlt
    | cons x t => exact ⟨w, x, t, hw, hu, rfl⟩

/-- What follows begins with a unit at which no match goes on. -/
theorem stops_of_begins (hr : ∀ w x t, r.Matches w → r.Matches (w ++ x :: t) → q x)
    (hs : ∀ x, s.begins x = true → ¬q x) : r.Stops s := by
  intro xs a ha b hb hlt b' hb'
  obtain ⟨w, x, t, hw, hwt, rfl⟩ := exists_of_length_lt ha hb hlt
  obtain ⟨v, hv, heq⟩ := mem_ends.1 hb'
  cases v with
  | nil => exact heq.symm
  | cons y v =>
    obtain rfl := (List.cons.inj heq).1
    exact absurd (hr w x t hw hwt) (hs x (begins_of_matches hv))

theorem stops_one (p : α → Bool) (s : RegExp α) : (one p).Stops s := by
  refine stops_of_begins (q := fun _ => False) ?_ fun _ _ => not_false
  rintro w x t ⟨y, -, rfl⟩ ⟨z, -, h⟩
  simp at h

/-- A pattern behind one unit goes on with units of the pattern. -/
theorem of_goes_on {p : α → Bool} {t : List α} (hr : r.Over q) (hw : (seq (one p) r).Matches w)
    (h : (seq (one p) r).Matches (w ++ x :: t)) : q x := by
  obtain ⟨_, u, ⟨y, -, rfl⟩, -, rfl⟩ := hw
  obtain ⟨_, v, ⟨z, -, rfl⟩, hv, heq⟩ := h
  have htail : u ++ x :: t = v := (List.cons.inj heq).2
  have hmem : x ∈ v := by
    rw [← htail]
    simp
  exact hr.of_matches hv x hmem

/-- What follows begins with a unit that it has nowhere else. -/
theorem greedy_seq_of_units (hr : r.Greedy) (hs : s.Greedy) (hne : s.nullable = false)
    (h : ∀ x t, s.Matches (x :: t) → q x ∧ ∀ y ∈ t, ¬q y) : (seq r s).Greedy := by
  refine greedy_seq hr hs fun xs a ha b hb hlt a' ha' b' hb' => ?_
  obtain ⟨-, x, t, -, -, rfl⟩ := exists_of_length_lt ha hb hlt
  obtain ⟨u, hu, rfl⟩ := mem_ends.1 ha'
  obtain ⟨v, hv, heq⟩ := mem_ends.1 hb'
  cases u with
  | nil => exact absurd rfl (ne_nil_of_matches hne hu)
  | cons y u =>
    obtain ⟨e, rfl, hrest⟩ | ⟨e, he, rfl⟩ := List.append_eq_append_iff.1 heq
    · cases e with
      | nil =>
        rw [List.nil_append] at hrest
        rw [← hrest, List.length_append, List.length_cons]
        omega
      | cons z e =>
        -- the shorter match's tail would hold the unit with which the longer one's begins
        obtain ⟨rfl, -⟩ := List.cons.inj hrest
        exact absurd (h y u hu).1 ((h x (t ++ y :: e) hv).2 y (by simp))
    · simp only [List.length_append, List.length_cons]
      omega

theorem longest_alt (hr : r.Longest) (hs : s.Longest)
    (h : ∀ xs, r.ends xs ≠ [] → ∀ v, s.Matches v → v <+: xs → r.Matches v) : (alt r s).Longest := by
  intro xs rest hhead rest' hmem
  rw [ends] at hhead hmem
  by_cases hnil : r.ends xs = []
  · rw [hnil, List.nil_append] at hhead hmem
    exact hs xs rest hhead rest' hmem
  · rw [List.head?_append_of_ne_nil _ hnil] at hhead
    refine hr xs rest hhead rest' ?_
    rcases List.mem_append.1 hmem with hmem | hmem
    · exact hmem
    · obtain ⟨v, hv, rfl⟩ := mem_ends.1 hmem
      exact mem_ends.2 ⟨v, h _ hnil v hv (List.prefix_append _ _), rfl⟩

/-- No text begins words of both. -/
theorem longest_alt_of_begins (hr : r.Longest) (hs : s.Longest) (hrn : r.nullable = false)
    (hsn : s.nullable = false) (h : ∀ x, r.begins x = true → s.begins x = false) :
    (alt r s).Longest := by
  refine longest_alt hr hs ?_
  rintro xs hnil v hv ⟨t, rfl⟩
  obtain ⟨rest, hrest⟩ := List.exists_mem_of_ne_nil _ hnil
  obtain ⟨u, hu, heq⟩ := mem_ends.1 hrest
  obtain ⟨x, u, rfl⟩ := List.exists_cons_of_ne_nil (ne_nil_of_matches hrn hu)
  obtain ⟨y, v, rfl⟩ := List.exists_cons_of_ne_nil (ne_nil_of_matches hsn hv)
  obtain rfl := (List.cons.inj heq).1
  exact absurd (begins_of_matches hv) (Bool.eq_false_iff.1 (h y (begins_of_matches hu)))

theorem head_captures (hs : s.nullable = true) (h : (captures r s xs).head? = some (mid, rest)) :
    (r.ends xs).head? = some mid ∧ (s.ends mid).head? = some rest := by
  unfold captures at h
  cases hends : r.ends xs with
  | nil =>
    rw [hends] at h
    cases h
  | cons a l =>
    have hne : s.ends a ≠ [] := List.ne_nil_of_mem (mem_ends.2 ⟨[], matches_nil hs, rfl⟩)
    rw [hends, List.flatMap_cons, List.head?_append_of_ne_nil _ (by simpa using hne),
      List.head?_map] at h
    obtain ⟨b, hb, heq⟩ := Option.map_eq_some_iff.1 h
    cases heq
    exact ⟨rfl, hb⟩

/-- The longest match from where it begins: of the group, and of what follows it. -/
structure Maximal (r s : RegExp α) (text : List α) (m : ℕ × ℕ × ℕ) : Prop where
  group : ∀ w, r.Matches w → w <+: text.drop m.1 → m.1 + w.length ≤ m.2.1
  suffix : ∀ w, s.Matches w → w <+: text.drop m.2.1 → m.2.1 + w.length ≤ m.2.2

theorem Longest.le (hr : r.Longest) (hhead : (r.ends xs).head? = some rest) (hw : r.Matches w)
    (h : w <+: xs) : w.length ≤ xs.length - rest.length := by
  obtain ⟨t, rfl⟩ := h
  have hle := hr _ _ hhead t (mem_ends.2 ⟨w, hw, rfl⟩)
  rw [List.length_append]
  omega

theorem maximal_of_mem_execAll (pre : List α) (hne : r.nullable = false) (hnull : s.nullable = true)
    (hr : r.Longest) (hs : s.Longest) (hm : m ∈ execAll r s n pre.length xs) :
    Maximal r s (pre ++ xs) m := by
  induction n generalizing pre xs with
  | zero => simp [execAll] at hm
  | succ n ih =>
    cases xs with
    | nil => simp [execAll] at hm
    | cons x xs =>
      rw [execAll] at hm
      split at hm
      · simpa using ih (pre ++ [x]) (by simpa using hm)
      · rename_i mid rest hhead
        obtain ⟨-, -, w, hw, hlen⟩ := found_captures pre hne (List.mem_of_head? hhead)
        rcases List.mem_cons.1 hm with rfl | hm
        · obtain ⟨hmid, hrest⟩ := head_captures hnull hhead
          obtain ⟨u, v, -, -, heq, rfl⟩ := mem_captures.1 (List.mem_of_head? hhead)
          have hlenu : (x :: xs).length - (v ++ rest).length = u.length := by
            rw [heq]
            simp only [List.length_append]
            omega
          have hlenv : (x :: xs).length - rest.length = u.length + v.length := by
            rw [heq]
            simp only [List.length_append]
            omega
          refine ⟨fun w hw hpre => ?_, fun w hw hpre => ?_⟩
          · rw [List.drop_left] at hpre
            exact Nat.add_le_add_left (hr.le hmid hw hpre) _
          · rw [hlenu, ← List.length_append, heq, List.append_assoc u, ← List.append_assoc pre,
              List.drop_left] at hpre
            have hle := hs.le hrest hw hpre
            simp only [hlenu, hlenv]
            rw [List.length_append] at hle
            omega
        · rw [hlen, ← List.length_append] at hm
          rw [hw, ← List.append_assoc]
          exact ih _ hm

end RegExp
