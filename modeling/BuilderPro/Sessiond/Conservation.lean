import BuilderPro.Sessiond.Scrollback

/-!
# What the sanitizer does with every byte

However its input is cut into chunks, the sanitizer copies it segment by segment, but for the
segments it is meant for: a complete sequence of the strip set is deleted, a recognized OSC that
outgrew its cap loses its ESC, and the last segment may still wait in the carry (`conserved`).
What it copies is a byte outside every sequence, a complete sequence that is not of the strip set,
or an unrecognized one that outgrew the carry.
-/

namespace BuilderPro

open CarryFilter

namespace Scrollback

/-- Neither BEL nor `ESC \` is in the body of an OSC. -/
def Unterminated (body : List UInt8) : Prop := bel ∉ body ∧ ¬ [esc, ch '\\'] <:+: body

def toggleModes : List (List UInt8) :=
  [ascii ['?', '1', '0', '4', '9'], ascii ['?', '4', '7'], ascii ['?', '2', '0', '0', '4']]

/-- What becomes of a segment of the input. -/
inductive Accounted : List UInt8 → List UInt8 → Prop
  | text {b : UInt8} (hb : b ≠ esc) : Accounted [b] [b]
  | escape {b : UInt8} (hcsi : b ≠ ch '[') (hosc : b ≠ ch ']') : Accounted [esc, b] [esc, b]
  | csi {params : List UInt8} {final : UInt8} (hparams : ∀ c ∈ params, isFinal c = false)
      (hfinal : isFinal final = true)
      (hkeep : ¬ (params ∈ toggleModes ∧ (final = ch 'h' ∨ final = ch 'l'))) :
      Accounted (esc :: ch '[' :: (params ++ [final])) (esc :: ch '[' :: (params ++ [final]))
  | otherOsc {q t : List UInt8} (hn : ∀ n ∈ oscIdents, ¬ n ++ [ch ';'] <+: q)
      (hq : Unterminated q) (ht : t = [bel] ∨ t = [esc, ch '\\']) :
      Accounted (esc :: ch ']' :: (q ++ t)) (esc :: ch ']' :: (q ++ t))
  | overlong {c : List UInt8} (hopen : classify c = .incomplete)
      (hrec : isRecognizedStrippableOscPrefix c = false) (hlen : c.length = carryCap + 1) :
      Accounted c c
  | toggle {mode : List UInt8} {final : UInt8} (hmode : mode ∈ toggleModes)
      (hfinal : final = ch 'h' ∨ final = ch 'l') :
      Accounted (esc :: ch '[' :: (mode ++ [final])) []
  | osc {n q t : List UInt8} (hn : n ∈ oscIdents) (hq : Unterminated q)
      (ht : t = [bel] ∨ t = [esc, ch '\\'])
      (hlen : (esc :: ch ']' :: (n ++ ch ';' :: (q ++ t))).length ≤ recognizedOscCap + 1) :
      Accounted (esc :: ch ']' :: (n ++ ch ';' :: (q ++ t))) []
  | defused {n q : List UInt8} (hn : n ∈ oscIdents) (hq : Unterminated q)
      (hlen : recognizedOscCap < (esc :: ch ']' :: (n ++ ch ';' :: q)).length) :
      Accounted (esc :: ch ']' :: (n ++ ch ';' :: q)) (fffd ++ ch ']' :: (n ++ ch ';' :: q))

theorem Unterminated.inner {x body : List UInt8} (h : Unterminated body) (hx : x <:+: body) :
    Unterminated x :=
  ⟨fun hb => h.1 (hx.subset hb), fun hs => h.2 (hs.trans hx)⟩

theorem terminated_iff {body : List UInt8} :
    Osc.terminated body = true ↔ [bel] <:+ body ∨ [esc, ch '\\'] <:+ body := by
  rw [Osc.terminated, Bool.or_eq_true, List.isSuffixOf_iff_suffix, List.isSuffixOf_iff_suffix]

/-- A body none of whose starts is terminated holds no terminator. -/
theorem unterminated_of_prefixes {body : List UInt8}
    (h : ∀ p, p <+: body → Osc.terminated p = false) : Unterminated body := by
  constructor
  · intro hb
    obtain ⟨s, t, rfl⟩ := List.append_of_mem hb
    have hterm : Osc.terminated (s ++ [bel]) = true :=
      terminated_iff.2 (.inl (List.suffix_append _ _))
    rw [h _ ⟨t, by simp⟩] at hterm
    cases hterm
  · rintro ⟨s, t, rfl⟩
    have hterm : Osc.terminated (s ++ [esc, ch '\\']) = true :=
      terminated_iff.2 (.inr (List.suffix_append _ _))
    rw [h _ ⟨t, by simp⟩] at hterm
    cases hterm

theorem classify_csi (body : List UInt8) :
    rules.classify (esc :: ch '[' :: body) = classifyCsi (esc :: ch '[' :: body) := rfl

theorem classify_osc (body : List UInt8) : rules.classify (esc :: ch ']' :: body) =
    if Osc.terminated body then if oscIdents.contains (Osc.ident body) then .drop else .keep
    else .incomplete := by
  rcases h : Osc.terminated body <;>
    simp [rules, classify, classifyOsc, Osc.classify, h, show ch ']' ≠ ch '[' by decide]

theorem classify_other {b : UInt8} {body : List UInt8} (h1 : b ≠ ch '[') (h2 : b ≠ ch ']') :
    rules.classify (esc :: b :: body) = .keep := by
  simp [rules, classify, h1, h2]

theorem terminated_of_incomplete {body : List UInt8}
    (h : rules.classify (esc :: ch ']' :: body) = .incomplete) : Osc.terminated body = false := by
  rw [classify_osc] at h
  by_contra hterm
  rw [Bool.not_eq_false] at hterm
  rw [if_pos hterm] at h
  split_ifs at h

/-- While an OSC is held, none of its starts is terminated. -/
theorem prefix_unterminated {body p : List UInt8} (h : rules.Held (esc :: ch ']' :: body))
    (hp : p <+: body) : Osc.terminated p = false := by
  have hheld : rules.Held (esc :: ch ']' :: p) :=
    h.of_prefix (List.cons_prefix_cons.2 ⟨rfl, List.cons_prefix_cons.2 ⟨rfl, hp⟩⟩)
      (List.cons_ne_nil _ _)
  exact terminated_of_incomplete (rules.classify_of_fate_none (hheld.fate (by simp)))

/-- A list goes on, where a test first fails, with a letter that fails it. -/
theorem takeWhile_split {f : UInt8 → Bool} {l : List UInt8} (h : l.takeWhile f ≠ l) :
    ∃ b r, l.dropWhile f = b :: r ∧ f b = false ∧ l = l.takeWhile f ++ b :: r := by
  have happ := List.takeWhile_append_dropWhile (p := f) (l := l)
  rcases hd : l.dropWhile f with _ | ⟨b, r⟩
  · rw [hd, List.append_nil] at happ
    exact absurd happ h
  · have hb := List.head?_dropWhile_not f l
    rw [hd] at hb happ
    exact ⟨b, r, rfl, by simpa using hb, happ.symm⟩

/-- The identifier of a body that goes on after it is followed by the separator. -/
theorem ident_split {body : List UInt8} (h : Osc.ident body ≠ body) :
    ∃ r, body = Osc.ident body ++ ch ';' :: r := by
  obtain ⟨b, r, -, hb, happ⟩ := takeWhile_split h
  obtain rfl : b = ch ';' := by simpa using hb
  exact ⟨r, happ⟩

/-- A CSI that is decided ends with its first final byte. -/
theorem csi_parts {body : List UInt8} {f : Fate} (h : rules.WF (.seq (esc :: ch '[' :: body) f))
    (hdone : rules.classify (esc :: ch '[' :: body) ≠ .incomplete) :
    ∃ params final, body = params ++ [final] ∧ (∀ c ∈ params, isFinal c = false) ∧
      isFinal final = true := by
  rw [classify_csi, classifyCsi] at hdone
  simp only [List.drop_succ_cons, List.drop_zero] at hdone
  have hne : body.takeWhile (fun c => !isFinal c) ≠ body := by
    intro hall
    have hnil : body.dropWhile (fun c => !isFinal c) = [] := by
      have happ := List.takeWhile_append_dropWhile (p := fun c => !isFinal c) (l := body)
      rwa [hall, List.append_right_eq_self] at happ
    rw [hnil] at hdone
    exact hdone rfl
  obtain ⟨final, rest, -, hfinal, happ⟩ := takeWhile_split hne
  have hparams : ∀ c ∈ body.takeWhile (fun c => !isFinal c), (!isFinal c) = true :=
    fun c hc => List.mem_takeWhile_imp (p := fun c => !isFinal c) hc
  clear hdone
  generalize body.takeWhile (fun c => !isFinal c) = params at happ hparams
  subst happ
  -- its start up to the final byte is decided already
  obtain rfl : rest = [] := by
    by_contra hrest
    have hheld : rules.Held (esc :: ch '[' :: (params ++ [final])) :=
      h.of_prefix ⟨rest, by simp⟩ (List.cons_ne_nil _ _) (by simpa using Ne.symm hrest)
    have hinc := rules.classify_of_fate_none (hheld.fate (by simp))
    rw [classify_csi, classifyCsi] at hinc
    simp only [List.drop_succ_cons, List.drop_zero] at hinc
    rw [List.dropWhile_append_of_pos hparams, List.dropWhile_cons_of_neg (by simp [hfinal])] at hinc
    simp only at hinc
    split_ifs at hinc
  exact ⟨params, final, rfl, fun c hc => by simpa using hparams c hc, by simpa using hfinal⟩

/-- The verdict on a CSI whose final byte has come. -/
theorem classify_csi_final {params : List UInt8} {final : UInt8}
    (hparams : ∀ c ∈ params, isFinal c = false) (hfinal : isFinal final = true) :
    rules.classify (esc :: ch '[' :: (params ++ [final])) =
      if params ∈ toggleModes ∧ (final = ch 'h' ∨ final = ch 'l') then .drop else .keep := by
  have hpos : ∀ c ∈ params, (!isFinal c) = true := fun c hc => by simp [hparams c hc]
  rw [classify_csi, classifyCsi]
  simp only [List.drop_succ_cons, List.drop_zero]
  rw [List.dropWhile_append_of_pos hpos, List.takeWhile_append_of_pos hpos,
    List.dropWhile_cons_of_neg (by simp [hfinal]), List.takeWhile_cons_of_neg (by simp [hfinal]),
    List.append_nil]
  simp [toggleModes, and_comm, or_assoc]

/-! ### The sequences that are deleted -/

theorem csi_dropped {body : List UInt8}
    (h : rules.WF (.seq (esc :: ch '[' :: body) .dropped)) :
    Accounted (esc :: ch '[' :: body) [] := by
  have hdrop := rules.fate_eq_dropped.1 h.fate
  obtain ⟨params, final, rfl, hparams, hfinal⟩ := csi_parts h (by simp [hdrop])
  rw [classify_csi_final hparams hfinal] at hdrop
  split_ifs at hdrop with hmode
  exact .toggle hmode.1 hmode.2

theorem oscIdents_plain :
    ∀ n ∈ oscIdents, Osc.terminated n = false ∧ n.length ≤ 3 ∧ ch ';' ∉ n := by decide

/-- The terminator of a body that ends past its separator is past it too. -/
theorem terminator_split {n r : List UInt8} (h : Osc.terminated (n ++ ch ';' :: r) = true) :
    ∃ q t, r = q ++ t ∧ (t = [bel] ∨ t = [esc, ch '\\']) := by
  rcases List.eq_nil_or_concat r with rfl | ⟨q, b, rfl⟩
  · rcases terminated_iff.1 h with ⟨u, hu⟩ | ⟨u, hu⟩
    · exact absurd (List.append_inj' hu rfl).2 (by decide)
    · have hu : (u ++ [esc]) ++ [ch '\\'] = n ++ [ch ';'] := by simpa using hu
      exact absurd (List.append_inj' hu rfl).2 (by decide)
  rw [List.concat_eq_append] at *
  rcases terminated_iff.1 h with ⟨u, hu⟩ | ⟨u, hu⟩
  · have hu : u ++ [bel] = (n ++ ch ';' :: q) ++ [b] := by simpa using hu
    obtain ⟨-, hb⟩ := List.append_inj' hu rfl
    exact ⟨q, [b], rfl, .inl hb.symm⟩
  · have hu : (u ++ [esc]) ++ [ch '\\'] = (n ++ ch ';' :: q) ++ [b] := by simpa using hu
    obtain ⟨hinit, hb⟩ := List.append_inj' hu rfl
    rcases List.eq_nil_or_concat q with rfl | ⟨q, c, rfl⟩
    · exact absurd (List.append_inj' hinit rfl).2 (by decide)
    · rw [List.concat_eq_append] at *
      have hinit : u ++ [esc] = (n ++ ch ';' :: q) ++ [c] := by simpa using hinit
      obtain ⟨-, hc⟩ := List.append_inj' hinit rfl
      refine ⟨q, [c, b], by simp, .inr ?_⟩
      rw [← List.singleton_append, ← hb, ← hc]
      rfl

theorem osc_dropped {body : List UInt8}
    (h : rules.WF (.seq (esc :: ch ']' :: body) .dropped)) :
    Accounted (esc :: ch ']' :: body) [] := by
  have hdrop := rules.fate_eq_dropped.1 h.fate
  have hlen := h.length_le (n := recognizedOscCap) (by decide) le_rfl (by decide)
  rw [classify_osc] at hdrop
  have hterm : Osc.terminated body = true := by
    by_contra hno
    rw [if_neg hno] at hdrop
    cases hdrop
  rw [if_pos hterm] at hdrop
  have hn : Osc.ident body ∈ oscIdents := by
    by_contra hno
    rw [if_neg (by simpa using hno)] at hdrop
    cases hdrop
  have hne : Osc.ident body ≠ body := by
    intro heq
    rw [heq] at hn
    rw [(oscIdents_plain _ hn).1] at hterm
    cases hterm
  obtain ⟨r, hr⟩ := ident_split hne
  generalize Osc.ident body = n at hn hr
  subst hr
  obtain ⟨q, t, rfl, ht⟩ := terminator_split hterm
  -- its start short of the terminator was held
  have hheld : rules.Held (esc :: ch ']' :: (n ++ ch ';' :: q)) := by
    refine h.of_prefix ⟨t, by simp⟩ (List.cons_ne_nil _ _) ?_
    rcases ht with rfl | rfl <;> simp
  have hun := unterminated_of_prefixes fun p hp => prefix_unterminated hheld hp
  exact .osc hn (hun.inner ⟨n ++ [ch ';'], [], by simp⟩) ht hlen

theorem accounted_dropped {c : List UInt8} (h : rules.WF (.seq c .dropped)) : Accounted c [] := by
  obtain ⟨a, body, rfl, ha⟩ := h.cons
  obtain rfl : a = esc := by simpa [rules] using ha
  have hdrop := rules.fate_eq_dropped.1 h.fate
  rcases body with _ | ⟨b, body⟩
  · exact absurd hdrop (by decide)
  by_cases h1 : b = ch '['
  · subst h1
    exact csi_dropped h
  by_cases h2 : b = ch ']'
  · subst h2
    exact osc_dropped h
  · rw [classify_other h1 h2] at hdrop
    cases hdrop

/-! ### The sequences that are let through -/

theorem csi_kept {body : List UInt8} (h : rules.WF (.seq (esc :: ch '[' :: body) .kept)) :
    Accounted (esc :: ch '[' :: body) (esc :: ch '[' :: body) := by
  have hkeep := rules.fate_eq_kept.1 h.fate
  obtain ⟨params, final, rfl, hparams, hfinal⟩ := csi_parts h (by simp [hkeep])
  rw [classify_csi_final hparams hfinal] at hkeep
  split_ifs at hkeep with hmode
  exact .csi hparams hfinal hmode

theorem osc_kept {body : List UInt8} (h : rules.WF (.seq (esc :: ch ']' :: body) .kept)) :
    Accounted (esc :: ch ']' :: body) (esc :: ch ']' :: body) := by
  have hkeep := rules.fate_eq_kept.1 h.fate
  rw [classify_osc] at hkeep
  split_ifs at hkeep with hterm hn
  obtain ⟨q, t, rfl, ht⟩ : ∃ q t, body = q ++ t ∧ (t = [bel] ∨ t = [esc, ch '\\']) := by
    rcases terminated_iff.1 hterm with ⟨q, hq⟩ | ⟨q, hq⟩
    · exact ⟨q, _, hq.symm, .inl rfl⟩
    · exact ⟨q, _, hq.symm, .inr rfl⟩
  have hheld : rules.Held (esc :: ch ']' :: q) := by
    refine h.of_prefix ⟨t, by simp⟩ (List.cons_ne_nil _ _) ?_
    rcases ht with rfl | rfl <;> simp
  refine .otherOsc ?_ (unterminated_of_prefixes fun p hp => prefix_unterminated hheld hp) ht
  rintro n hmem ⟨r, rfl⟩
  have hident : Osc.ident (n ++ ch ';' :: (r ++ t)) = n :=
    Osc.ident_append (oscIdents_plain n hmem).2.2 _
  rw [show n ++ [ch ';'] ++ r ++ t = n ++ ch ';' :: (r ++ t) by simp, hident] at hn
  exact hn (List.contains_iff_mem.2 hmem)

theorem accounted_kept {c : List UInt8} (h : rules.WF (.seq c .kept)) : Accounted c c := by
  obtain ⟨a, body, rfl, ha⟩ := h.cons
  obtain rfl : a = esc := by simpa [rules] using ha
  rcases body with _ | ⟨b, body⟩
  · exact absurd (rules.fate_eq_kept.1 h.fate) (by decide)
  by_cases h1 : b = ch '['
  · subst h1
    exact csi_kept h
  by_cases h2 : b = ch ']'
  · subst h2
    exact osc_kept h
  -- any other escape is decided at its second byte
  obtain rfl : body = [] := by
    by_contra hbody
    have hheld : rules.Held [esc, b] :=
      h.of_prefix ⟨body, rfl⟩ (List.cons_ne_nil _ _) (by simpa using Ne.symm hbody)
    have hinc := rules.classify_of_fate_none (hheld.fate (by simp))
    rw [classify_other h1 h2] at hinc
    cases hinc
  exact .escape h1 h2

/-- Past the small cap a recognized carry has its identifier, and stays recognized. -/
theorem recognized_concat {c : List UInt8} (h : Osc.recognized oscIdents c = true)
    (hlen : carryCap < c.length) (b : UInt8) : Osc.recognized oscIdents (c ++ [b]) = true := by
  unfold Osc.recognized at h
  split at h
  · rename_i e r body
    split_ifs at h with hlead hsep
    · obtain ⟨r', hr'⟩ := ident_split fun heq => by
        have hmem : ch ';' ∈ Osc.ident body := by
          rw [heq]
          simpa using hsep
        simpa using List.mem_takeWhile_imp (p := (· != ch ';')) hmem
      have hident : Osc.ident (body ++ [b]) = Osc.ident body := by
        have hn : Osc.ident body ∈ oscIdents := by simpa using h
        rw [hr', List.append_assoc, List.cons_append]
        generalize Osc.ident body = n at hn
        have hplain := (oscIdents_plain n hn).2.2
        rw [Osc.ident_append hplain, Osc.ident_append hplain]
      have hsep' : (body ++ [b]).contains (ch ';') = true := by
        simpa using Or.inl (by simpa using hsep)
      simp only [List.cons_append, Osc.recognized, hlead, hsep', hident, h, if_true]
      simp
    · rw [Bool.and_eq_true, List.any_eq_true] at h
      obtain ⟨-, full, hfull, hpre⟩ := h
      have h3 := (oscIdents_plain full hfull).2.1
      have hle := (List.isPrefixOf_iff_prefix.1 hpre).length_le
      rw [List.length_cons, List.length_cons, carryCap] at hlen
      omega
  · cases h

theorem accounted_flushed {c : List UInt8} (h : rules.WF (.seq c .flushed)) : Accounted c c := by
  obtain ⟨hopen, hrec, hlen⟩ := rules.fate_eq_flushed.1 h.fate
  refine .overlong hopen hrec (le_antisymm ?_ hlen)
  cases h with
  | @seq held b _ hheld hfate =>
    rw [List.length_append, List.length_singleton, Nat.add_le_add_iff_right]
    -- held past the small cap, it was recognized, and still is
    by_contra hlong
    rw [not_le] at hlong
    have hnone := hheld.fate (by rw [carryCap] at hlong; omega)
    have hrecognized : Osc.recognized oscIdents held = true := by
      by_contra hno
      have hflushed := rules.fate_eq_flushed.2 ⟨rules.classify_of_fate_none hnone,
        eq_false_of_ne_true hno, hlong⟩
      rw [hnone] at hflushed
      cases hflushed
    change isRecognizedStrippableOscPrefix (held ++ [b]) = false at hrec
    rw [isRecognizedStrippableOscPrefix, recognized_concat hrecognized hlong] at hrec
    cases hrec

/-! ### The sequence that outgrew its cap -/

theorem accounted_defused {c : List UInt8} (h : rules.WF (.seq c .defused)) :
    Accounted c (fffd ++ c.tail) := by
  obtain ⟨hinc, hrec, hlen⟩ := rules.fate_eq_defused.1 h.fate
  change Osc.recognized oscIdents c = true at hrec
  change recognizedOscCap < c.length at hlen
  unfold Osc.recognized at hrec
  split at hrec
  · rename_i e r body
    split_ifs at hrec with hlead hsep
    · simp only [bne_iff_ne, Bool.or_eq_true, not_or, not_not] at hlead
      obtain ⟨rfl, rfl⟩ := hlead
      have hne : Osc.ident body ≠ body := by
        intro heq
        have hmem : ch ';' ∈ Osc.ident body := by
          rw [heq]
          simpa using hsep
        have hno := List.mem_takeWhile_imp (p := (· != ch ';')) hmem
        simp at hno
      obtain ⟨q, hq⟩ := ident_split hne
      have hn : Osc.ident body ∈ oscIdents := by simpa using hrec
      -- all of it that was held, and the whole of it too, is unterminated
      have hun : Unterminated body := by
        refine unterminated_of_prefixes fun p hp => ?_
        by_cases hpb : p = body
        · exact hpb ▸ terminated_of_incomplete hinc
        · have hheld : rules.Held (esc :: ch ']' :: p) :=
            h.of_prefix (List.cons_prefix_cons.2 ⟨rfl, List.cons_prefix_cons.2 ⟨rfl, hp⟩⟩)
              (List.cons_ne_nil _ _) (by simpa using hpb)
          exact prefix_unterminated hheld List.prefix_rfl
      generalize Osc.ident body = n at hn hq
      subst hq
      exact .defused hn (hun.inner ⟨n ++ [ch ';'], [], by simp⟩) hlen
    · -- an identifier still open is short
      rw [Bool.and_eq_true, List.any_eq_true] at hrec
      obtain ⟨-, full, hfull, hpre⟩ := hrec
      have h3 := (oscIdents_plain full hfull).2.1
      have hle := (List.isPrefixOf_iff_prefix.1 hpre).length_le
      rw [List.length_cons, List.length_cons, recognizedOscCap] at hlen
      omega
  · cases hrec

theorem classify_of_held {c : List UInt8} (h : rules.Held c) : classify c = .incomplete := by
  cases h with
  | lead h => rfl
  | grow hc h => exact rules.classify_of_fate_none h

theorem accounted {s : Seg UInt8} (h : rules.WF s) : Accounted s.raw (rules.shown s) := by
  rcases s with b | ⟨c, f⟩
  · cases h with
    | text h => exact .text (by simpa [rules] using h)
  · rcases f
    · exact accounted_dropped h
    · exact accounted_kept h
    · exact accounted_flushed h
    · exact accounted_defused h

end Scrollback

namespace Sanitizer

open Scrollback

theorem ext {s t : Sanitizer} (h : s.carry = t.carry) : s = t := by
  rcases s with ⟨c, hc⟩
  subst h
  rfl

def filterAll (s : Sanitizer) : List (List UInt8) → List UInt8 × Sanitizer
  | [] => ([], s)
  | c :: cs => ((s.filter c).1 ++ ((s.filter c).2.filterAll cs).1, ((s.filter c).2.filterAll cs).2)

theorem filterAll_eq (s : Sanitizer) (cs : List (List UInt8)) :
    (s.filterAll cs).1 = (rules.feed s.carry cs.flatten).1 ∧
      (s.filterAll cs).2.carry = (rules.feed s.carry cs.flatten).2 := by
  induction cs generalizing s with
  | nil => simp [filterAll]
  | cons c cs ih =>
    obtain ⟨h1, h2⟩ := ih (s.filter c).2
    rw [filterAll, List.flatten_cons, rules.feed_append, h1, h2]
    exact ⟨rfl, rfl⟩

/-- Every byte put in is in a segment that is accounted for or in the carry, which is undecided and
within the cap; and the cuts between chunks are seen nowhere. -/
theorem conserved (chunks : List (List UInt8)) :
    (∃ segs : List (List UInt8 × List UInt8), (∀ x ∈ segs, Accounted x.1 x.2) ∧
      chunks.flatten = segs.flatMap Prod.fst ++ (new.filterAll chunks).2.carry ∧
      (new.filterAll chunks).1 = segs.flatMap Prod.snd) ∧
    (new.filterAll chunks).2.carry.length ≤ recognizedOscCap ∧
    ((new.filterAll chunks).2.carry ≠ [] →
      classify (new.filterAll chunks).2.carry = .incomplete) ∧
    ∀ chunks' : List (List UInt8), chunks'.flatten = chunks.flatten →
      new.filterAll chunks' = new.filterAll chunks := by
  obtain ⟨hout, hcarry⟩ := new.filterAll_eq chunks
  rw [show new.carry = [] from rfl, rules.feed_eq_read] at hout hcarry
  refine ⟨⟨(rules.read [] chunks.flatten).1.map fun s => (s.raw, rules.shown s), ?_, ?_, ?_⟩,
    ?_, ?_, fun chunks' hflat => ?_⟩
  · intro x hx
    obtain ⟨s, hs, rfl⟩ := List.mem_map.1 hx
    exact accounted ((rules.read_wf (.inl rfl) chunks.flatten).1 s hs)
  · rw [hcarry, List.flatMap_map, rules.raw_read, List.nil_append]
  · rw [hout, List.flatMap_map]
    rfl
  · rcases (new.filterAll chunks).2.held with h | h
    · rw [h]
      simp
    · exact h.length_le (by decide) le_rfl (by decide)
  · intro hne
    rcases (new.filterAll chunks).2.held with h | h
    · exact absurd h hne
    · exact classify_of_held h
  · have h' := new.filterAll_eq chunks'
    rw [hflat, show new.carry = [] from rfl, rules.feed_eq_read, ← hout, ← hcarry] at h'
    exact Prod.ext h'.1 (Sanitizer.ext h'.2)

end Sanitizer

end BuilderPro
