import BuilderPro.Lib.CarryFilterText
import BuilderPro.Sessiond.Scrollback

/-!
# What a replayed snapshot can do

A snapshot holds an enumerated introducer exactly where an escape sequence that the sanitizer let
through carries a further ESC that starts one (`snapshot_safe_iff`), and it survives a second
sanitizing unless such an ESC, met in the ground state, starts a sequence that is not let through
as it is (`rehydrated_eq_iff`).  When no sequence let through carries a further ESC, both hold at
every cap (`snapshot_safe_of_plain`, `rehydrated_eq_of_plain`).
-/

namespace BuilderPro

open CarryFilter

namespace Scrollback

/-- `ESC ] n ;` for the title, cwd and prompt-mark OSCs, and `ESC [ ? m h` and `ESC [ ? m l` for
the alternate-screen and bracketed-paste modes. -/
def introducers : List (List UInt8) :=
  ([['0'], ['1'], ['2'], ['7'], ['1', '3', '3']].map fun n =>
      esc :: ch ']' :: (ascii n ++ [ch ';']))
    ++ [['1', '0', '4', '9'], ['4', '7'], ['2', '0', '0', '4']].flatMap fun m =>
      [esc :: ch '[' :: ch '?' :: (ascii m ++ [ch 'h']),
        esc :: ch '[' :: ch '?' :: (ascii m ++ [ch 'l'])]

/-- Some introducer starts here. -/
def Introduced (t : List UInt8) : Prop := ∃ f ∈ introducers, f <+: t

theorem introduced_lead (t : List UInt8) (h : Introduced t) :
    ∃ l v, t = l :: v ∧ rules.lead l := by
  obtain ⟨f, hf, r, rfl⟩ := h
  have : ∀ f ∈ introducers, f.head? = some esc := by decide
  obtain ⟨v, rfl⟩ := List.head?_eq_some_iff.1 (this f hf)
  exact ⟨esc, v ++ r, rfl, rfl⟩

/-- An introducer is either stripped once complete, or ends an identifier to drop. -/
theorem introducers_cases : ∀ f ∈ introducers, rules.fate f = some .dropped ∨
    ∃ n ∈ oscIdents, f = esc :: ch ']' :: (n ++ [ch ';']) := by
  decide

theorem introducers_inits : ∀ f ∈ introducers, ∀ p ∈ f.inits,
    rules.fate p ≠ some .kept ∧ rules.fate p ≠ some .flushed := by
  decide

/-- No introducer starts where a sequence that is let through does. -/
theorem not_introduced (c : List UInt8) (f : Fate) (rest : List UInt8) (h : rules.WF (.seq c f))
    (hf : f = .kept ∨ f = .flushed) : ¬ Introduced (c ++ rest) := by
  rintro ⟨w, hw, hp⟩
  rcases introducers_cases w hw with hdrop | ⟨n, hn, rfl⟩
  · -- complete before the sequence is: it would have been stripped there
    obtain ⟨hwc, hne⟩ := h.start hf (introducers_inits w hw) hp
    obtain ⟨l, v, rfl, -⟩ := introduced_lead w ⟨w, hw, List.prefix_rfl⟩
    have h2 : ∀ f ∈ introducers, 2 ≤ f.length := by decide
    rw [(h.of_prefix hwc (List.cons_ne_nil l v) hne).fate (h2 _ hw)] at hdrop
    simp at hdrop
  · have hs : ∀ n ∈ oscIdents, ch ';' ∉ n := by decide
    exact Osc.not_ident_prefix (fun _ => rfl) (fun _ => rfl) hn (hs n hn)
      (introducers_inits _ hw) h hf hp

theorem suffix_rtake {t l : List UInt8} {n : ℕ} :
    t <:+ l.rtake n ↔ t <:+ l ∧ t.length ≤ n := by
  constructor
  · intro h
    refine ⟨h.trans (List.drop_suffix _ _), h.length_le.trans ?_⟩
    rw [List.rtake, List.length_drop]
    omega
  · rintro ⟨⟨p, rfl⟩, hn⟩
    refine ⟨p.drop (p.length + t.length - n), ?_⟩
    rw [List.rtake, List.length_append, List.drop_append_of_le_length (by omega)]

theorem infix_rtake {f l : List UInt8} {n : ℕ} :
    f <:+: l.rtake n ↔ ∃ t, t <:+ l ∧ t.length ≤ n ∧ f <+: t := by
  rw [List.infix_iff_prefix_suffix]
  constructor
  · rintro ⟨t, hf, ht⟩
    obtain ⟨h1, h2⟩ := suffix_rtake.1 ht
    exact ⟨t, h1, h2, hf⟩
  · rintro ⟨t, h1, h2, hf⟩
    exact ⟨t, hf, suffix_rtake.2 ⟨h1, h2⟩⟩

/-- The segments the sanitizer makes of a stream. -/
def segments (stream : List UInt8) : List (Seg UInt8) := (rules.read [] stream).1

theorem segments_wf (stream : List UInt8) : ∀ s ∈ segments stream, rules.WF s :=
  (rules.read_wf (.inl rfl) stream).1

end Scrollback

namespace ScrollbackRing

open Scrollback

theorem snapshot_eq (cap : ℕ) (chunks : List (List UInt8)) :
    ((new cap).pushAll chunks).snapshot
      = (rules.shownAll (segments chunks.flatten)).rtake cap := by
  rw [snapshot_pushAll, rules.feed_eq_read, segments]

/-- A snapshot holds no introducer exactly when none is spelled, within the last `cap` bytes, from
an ESC inside a sequence the sanitizer let through. -/
theorem snapshot_safe_iff (cap : ℕ) (chunks : List (List UInt8)) :
    (∀ f ∈ introducers, ¬ f <:+: ((new cap).pushAll chunks).snapshot) ↔
      ∀ t, rules.Inner (segments chunks.flatten) t → t.length ≤ cap →
        ∀ f ∈ introducers, ¬ f <+: t := by
  have key := Rules.exists_suffix_iff (R := rules) introduced_lead defused_lead not_introduced
    (segments_wf chunks.flatten) (fun t => t.length ≤ cap)
  constructor
  · rintro h t ht hcap f hf hft
    obtain ⟨t', h1, h2, g, hg, hgt⟩ := key.2 ⟨t, ht, hcap, f, hf, hft⟩
    refine h g hg ?_
    rw [snapshot_eq]
    exact infix_rtake.2 ⟨t', h1, h2, hgt⟩
  · rintro h f hf hin
    rw [snapshot_eq] at hin
    obtain ⟨t, h1, h2, hft⟩ := infix_rtake.1 hin
    obtain ⟨t', ht', hcap', g, hg, hgt⟩ := key.1 ⟨t, h1, h2, f, hf, hft⟩
    exact h t' ht' hcap' g hg hgt

/-- `ESC ESC ] 0 ;`: the doubled ESC is kept as a two-byte escape, and its second ESC starts a title
OSC the sanitizer never sees. -/
theorem doubled_esc_unsafe : ¬ ∀ (cap : ℕ) (chunks : List (List UInt8)), ∀ f ∈ introducers,
    ¬ f <:+: ((new cap).pushAll chunks).snapshot := by
  intro h
  exact h 262144 [[esc, esc, ch ']', ch '0', ch ';']] [esc, ch ']', ch '0', ch ';'] (by decide)
    (by decide)

/-- The snapshot of a ring that a snapshot was pushed to. -/
def rehydrated (cap : ℕ) (b : List UInt8) : List UInt8 := ((new cap).push b).snapshot

theorem rehydrated_eq (cap : ℕ) (b : List UInt8) :
    rehydrated cap b = (rules.feed [] b).1.rtake cap := by
  rw [rehydrated, snapshot, push_buf]
  rfl

/-- A text within the cap is rehydrated as it is exactly when the sanitizer reads it through. -/
theorem rehydrated_eq_self_iff {cap : ℕ} {b : List UInt8} (hb : b.length ≤ cap) :
    rehydrated cap b = b ↔ rules.Readable b := by
  rw [← Rules.readable_iff_suffix defused_lead, rehydrated_eq]
  constructor
  · intro h
    nth_rewrite 1 [← h]
    exact List.drop_suffix _ _
  · intro h
    have := Rules.Readable.feed rules ((Rules.readable_iff_suffix defused_lead).1 h)
    rw [this, List.rtake, Nat.sub_eq_zero_of_le hb, List.drop_zero]

theorem length_snapshot_le (cap : ℕ) (chunks : List (List UInt8)) :
    ((new cap).pushAll chunks).snapshot.length ≤ cap := by
  have := ((new cap).pushAll chunks).length_le
  rwa [((new cap).pushAll_spec chunks).2.2] at this

theorem snapshot_suffix (cap : ℕ) (chunks : List (List UInt8)) :
    ((new cap).pushAll chunks).snapshot <:+ rules.shownAll (segments chunks.flatten) := by
  rw [snapshot_eq]
  exact List.drop_suffix _ _

/-- A snapshot comes back from a restart as it was unless an ESC inside a sequence the sanitizer
let through, which the sanitizer now meets in its ground state, starts a sequence to drop or to
defuse or one that stays unfinished. -/
theorem rehydrated_eq_iff (cap : ℕ) (chunks : List (List UInt8)) :
    rehydrated cap ((new cap).pushAll chunks).snapshot = ((new cap).pushAll chunks).snapshot ↔
      ∀ p t, p ++ t = ((new cap).pushAll chunks).snapshot →
        rules.Inner (segments chunks.flatten) t → (rules.read [] p).2 = [] →
          ¬ rules.Spoiled t := by
  rw [rehydrated_eq_self_iff (length_snapshot_le cap chunks)]
  exact Rules.readable_suffix_iff defused_lead (segments_wf _) (snapshot_suffix cap chunks)

/-- Pruning `ESC ESC ] 0 ; t BEL` by one byte leaves a title OSC, which the second sanitizing
drops. -/
theorem pruned_esc_lost : ¬ ∀ (cap : ℕ) (chunks : List (List UInt8)),
    rehydrated cap ((new cap).pushAll chunks).snapshot = ((new cap).pushAll chunks).snapshot := by
  intro h
  have := h 6 [[esc, esc, ch ']', ch '0', ch ';', ch 't', bel]]
  revert this
  decide

end ScrollbackRing

/-! ## Streams without inner escapes -/

namespace Scrollback

/-- No ESC after the first byte, but for a closing `ESC \`. -/
def Plain (c : List UInt8) : Prop := ∀ u v, c = u ++ esc :: v → u = [] ∨ v = [ch '\\']

/-- No sequence of the stream that is let through carries a further ESC. -/
def PlainStream (stream : List UInt8) : Prop :=
  ∀ c f, .seq c f ∈ segments stream → f ≠ .dropped → Plain c

theorem wf_st : rules.WF (.seq [esc, ch '\\'] .kept) :=
  .seq (c := [esc]) (b := ch '\\') (.lead rfl) (by decide)

/-- The only ESC inside a sequence let through starts `ESC \`. -/
theorem PlainStream.inner {stream t : List UInt8} (h : PlainStream stream)
    (ht : rules.Inner (segments stream) t) : ∃ rest, t = [esc, ch '\\'] ++ rest := by
  obtain ⟨pre, u, l, v, g, post, hss, hg, hu, hl, rfl⟩ := ht
  obtain rfl : l = esc := by simpa [rules] using hl
  have hmem : .seq (u ++ esc :: v) g ∈ segments stream := by rw [hss]; simp
  rcases h _ g hmem hg u v rfl with rfl | rfl
  · exact absurd rfl hu
  · exact ⟨rules.shownAll post, rfl⟩

end Scrollback

namespace ScrollbackRing

open Scrollback

theorem rehydrated_eq_of_plain (cap : ℕ) {chunks : List (List UInt8)}
    (h : PlainStream chunks.flatten) :
    rehydrated cap ((new cap).pushAll chunks).snapshot = ((new cap).pushAll chunks).snapshot := by
  rw [rehydrated_eq_self_iff (length_snapshot_le cap chunks),
    Rules.readable_suffix_iff defused_lead (segments_wf _) (snapshot_suffix cap chunks)]
  intro p t _ ht _
  obtain ⟨rest, rfl⟩ := h.inner ht
  exact Rules.not_spoiled wf_st (.inl rfl) rest

theorem snapshot_safe_of_plain (cap : ℕ) {chunks : List (List UInt8)}
    (h : PlainStream chunks.flatten) :
    ∀ f ∈ introducers, ¬ f <:+: ((new cap).pushAll chunks).snapshot := by
  intro f hf hin
  rw [snapshot_eq] at hin
  obtain ⟨t, h1, -, hft⟩ := infix_rtake.1 hin
  have hinner := Rules.inner_of_suffix introduced_lead defused_lead not_introduced (segments_wf _)
    h1 ⟨f, hf, hft⟩
  obtain ⟨rest, rfl⟩ := h.inner hinner
  exact not_introduced _ _ rest wf_st (.inl rfl) ⟨f, hf, hft⟩

end ScrollbackRing

end BuilderPro
