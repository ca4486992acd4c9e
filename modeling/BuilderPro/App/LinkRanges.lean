import BuilderPro.App.FileLinks
import BuilderPro.Lib.GreedyRegExp

/-!
# The cells of a file link

`wireFileLinks` hands xterm, for each link of a line, the columns of its range.  A token that is
found is the longest of its place (`longest_pathToken`), and the range covers the cells that show it
exactly where the line's text up to it has as many units as cells (`provided_links`).
-/

namespace BuilderPro

open Js (Text)

namespace FileLinks

open RegExp

/-! ### The longest token -/

variable {w : Text}

theorem not_isSegmentUnit_slash : ¬isSegmentUnit slash = true := by decide

theorem over_segment : segment.Over fun u => isSegmentUnit u = true :=
  ⟨fun _ h => h, fun _ h => h⟩

theorem greedy_plus_one (p : UInt16 → Bool) : (plus (.one p)).Greedy :=
  greedy_plus (greedy_one p) (stops_one p _)

theorem greedy_slashSegment : slashSegment.Greedy :=
  greedy_seq_of_stops (greedy_one _) (greedy_plus_one _) (stops_one _ _)

theorem begins_slashSegment {u : UInt16} (h : slashSegment.begins u = true) : u = slash := by
  rw [slashSegment, begins_seq rfl] at h
  exact of_decide_eq_true h

theorem stops_slashSegment {s : RegExp UInt16} (hs : ∀ u, s.begins u = true → u = slash) :
    slashSegment.Stops s :=
  stops_of_begins (fun _ _ _ => of_goes_on over_segment) fun u hu => by
    rw [hs u hu]
    exact not_isSegmentUnit_slash

theorem greedy_star_slashSegment : (star slashSegment).Greedy :=
  greedy_star greedy_slashSegment (stops_slashSegment fun _ => begins_slashSegment)

theorem begins_plus_slashSegment {u : UInt16} (h : (plus slashSegment).begins u = true) :
    u = slash := by
  rw [plus, begins_seq rfl] at h
  exact begins_slashSegment h

theorem greedy_plus_slashSegment : (plus slashSegment).Greedy :=
  greedy_plus greedy_slashSegment (stops_slashSegment fun _ => begins_slashSegment)

theorem greedy_homeRelative : homeRelative.Greedy :=
  greedy_seq_of_stops (greedy_one _)
    (greedy_seq_of_stops greedy_slashSegment greedy_star_slashSegment
      (stops_star (stops_slashSegment fun _ => begins_slashSegment))) (stops_one _ _)

theorem greedy_absolute : absolute.Greedy :=
  greedy_seq_of_stops greedy_slashSegment greedy_plus_slashSegment
    (stops_slashSegment fun _ => begins_plus_slashSegment)

theorem greedy_dotRelative : dotRelative.Greedy := by
  refine greedy_seq_of_stops (greedy_one _) ?_ (stops_one _ _)
  refine greedy_seq_of_stops (greedy_opt (greedy_one _)) ?_ ?_
  · refine greedy_seq_of_stops (greedy_one _) ?_ (stops_one _ _)
    exact greedy_seq_of_stops (greedy_one _) (greedy_star (greedy_one _) (stops_one _ _))
      (stops_one _ _)
  · have hover : (opt (lit dot)).Over (· = dot) := fun _ h => of_decide_eq_true h
    refine stops_of_begins (q := (· = dot)) (fun w x t _ h => hover.of_matches h x (by simp)) ?_
    intro u hu hdot
    subst hdot
    exact absurd hu (by decide)

theorem greedy_bareRelative : bareRelative.Greedy := by
  refine greedy_seq_of_stops (greedy_plus_one _) ?_ ?_
  · refine greedy_seq_of_units (q := (· = dot)) greedy_plus_slashSegment
      (greedy_seq_of_stops (greedy_one _) (greedy_plus_one _) (stops_one _ _)) (by decide) ?_
    rintro x t ⟨_, v, ⟨y, hy, rfl⟩, hv, heq⟩
    obtain ⟨rfl, htail⟩ := List.cons.inj heq
    refine ⟨of_decide_eq_true hy, fun z hz hdot => ?_⟩
    have hover : (plus (.one isWord)).Over fun u => isWord u = true := ⟨fun _ h => h, fun _ h => h⟩
    have htail' : t = v := htail
    have hword := hover.of_matches hv z (htail' ▸ hz)
    rw [hdot] at hword
    exact absurd hword (by decide)
  · refine stops_of_begins (fun w x t _ h => over_segment.of_matches h x (by simp)) ?_
    intro u hu
    rw [begins_seq rfl] at hu
    rw [begins_plus_slashSegment hu]
    exact not_isSegmentUnit_slash

theorem eq_of_append_slash {a b A B : Text} (ha : slash ∉ a) (hb : slash ∉ b)
    (h : a ++ slash :: A = b ++ slash :: B) : a = b := by
  have htake {c C : Text} (hc : slash ∉ c) : (c ++ slash :: C).takeWhile (· ≠ slash) = c := by
    rw [List.takeWhile_append_of_pos fun u hu => decide_eq_true (ne_of_mem_of_not_mem hu hc)]
    simp
  rw [← htake ha, h, htake hb]

theorem over_bareRelative : bareRelative.Over fun u => (isSegmentUnit u || u = slash) = true := by
  have hunit (u : UInt16) (h : isSegmentUnit u = true) : (isSegmentUnit u || u = slash) = true := by
    rw [h, Bool.true_or]
  have hword (u : UInt16) (h : isWord u = true) : isSegmentUnit u = true := by
    rw [isSegmentUnit, h, Bool.true_or]
  have hslash (u : UInt16) (h : decide (u = slash) = true) :
      (isSegmentUnit u || u = slash) = true := by
    rw [h, Bool.or_true]
  have hdot (u : UInt16) (h : decide (u = dot) = true) : isSegmentUnit u = true := by
    rw [of_decide_eq_true h]
    decide
  have hsegment : slashSegment.Over fun u => (isSegmentUnit u || u = slash) = true :=
    ⟨hslash, hunit, hunit⟩
  exact ⟨⟨hunit, hunit⟩, ⟨hsegment, hsegment⟩, fun u h => hunit u (hdot u h),
    fun u h => hunit u (hword u h), fun u h => hunit u (hword u h)⟩

/-- Behind dots and a slash, a bare relative path is a dot-relative one. -/
theorem dotRelative_of_bareRelative {xs : Text} (h : dotRelative.ends xs ≠ [])
    (hw : bareRelative.Matches w) (hpre : w <+: xs) : dotRelative.Matches w := by
  have hall := over_bareRelative.of_matches hw
  obtain ⟨rest, hrest⟩ := List.exists_mem_of_ne_nil _ h
  obtain ⟨u, hu, rfl⟩ := mem_ends.1 hrest
  obtain ⟨_, _, ⟨d, hd, rfl⟩, ⟨o, _, ho, ⟨_, B, ⟨x, hx, rfl⟩, -, rfl⟩, rfl⟩, rfl⟩ := hu
  obtain rfl := of_decide_eq_true hd
  obtain rfl := of_decide_eq_true hx
  obtain ⟨seg, _, hseg, ⟨_, ext, ⟨_, more, ⟨_, _, ⟨x, hx, rfl⟩, ⟨_, s, ⟨y, hy, rfl⟩, -, rfl⟩, rfl⟩,
    -, rfl⟩, -, rfl⟩, rfl⟩ := hw
  obtain rfl := of_decide_eq_true hx
  obtain ⟨t, ht⟩ := hpre
  have hdots : slash ∉ dot :: o := by
    rcases ho with rfl | ⟨z, hz, rfl⟩
    · decide
    · rw [of_decide_eq_true hz]
      decide
  have hslash : slash ∉ seg := fun hmem =>
    not_isSegmentUnit_slash (over_segment.of_matches hseg _ hmem)
  obtain rfl : seg = dot :: o := eq_of_append_slash hslash hdots (by simpa using ht)
  refine ⟨[dot], _, ⟨dot, rfl, rfl⟩, ⟨o, _, ho, ⟨[slash], _, ⟨slash, rfl, rfl⟩,
    ⟨[y], s ++ more ++ ext, ⟨y, hy, rfl⟩, matches_star_one fun z hz => hall z ?_, rfl⟩, rfl⟩,
    rfl⟩, ?_⟩
  · simp only [List.mem_append] at hz ⊢
    tauto
  · simp

theorem longest_pathToken : pathToken.Longest := by
  have hdots : (alt dotRelative bareRelative).Longest :=
    longest_alt greedy_dotRelative.longest greedy_bareRelative.longest
      fun _ hne _ => dotRelative_of_bareRelative hne
  refine longest_alt_of_begins greedy_homeRelative.longest
    (longest_alt_of_begins greedy_absolute.longest hdots (by decide) (by decide) ?_)
    (by decide) (by decide) ?_
  · intro u hu
    rw [absolute, begins_seq rfl] at hu
    rw [begins_slashSegment hu]
    decide
  · intro u hu
    rw [homeRelative, begins_seq rfl] at hu
    rw [of_decide_eq_true hu]
    decide

theorem greedy_colonDigits : colonDigits.Greedy :=
  greedy_seq_of_stops (greedy_one _) (greedy_plus_one _) (stops_one _ _)

theorem longest_lineCol : lineCol.Longest := by
  have hdigits : (plus (.one isDigit)).Over fun u => isDigit u = true :=
    ⟨fun _ h => h, fun _ h => h⟩
  have hopt : (opt colonDigits).Greedy := greedy_opt greedy_colonDigits
  refine (greedy_opt (greedy_seq_of_stops greedy_colonDigits hopt ?_)).longest
  refine stops_of_begins (fun _ _ _ => of_goes_on hdigits) fun u hu => ?_
  rw [begins, colonDigits, begins_seq rfl] at hu
  rw [of_decide_eq_true hu]
  decide

/-! ### `wireFileLinks` -/

structure BufferCellPosition where
  x : ℕ
  y : ℕ
  deriving DecidableEq

structure BufferRange where
  start : BufferCellPosition
  end_ : BufferCellPosition
  deriving DecidableEq

/-- A link as xterm takes it; `root` and `rel` are what its activation opens. -/
structure ILink where
  range : BufferRange
  text : Text
  root : Text
  rel : Text
  deriving DecidableEq

/-- Both columns of a range are 1-based, and xterm's second one is the last of the range. -/
def toILink (lineText : Text) (bufferLineNumber : ℕ) (link : ResolvedFileLink) : ILink where
  range :=
    { start := { x := link.startCol, y := bufferLineNumber }
      end_ := { x := link.endCol - 1, y := bufferLineNumber } }
  text := Js.slice lineText (link.startCol - 1) (link.endCol - 1)
  root := link.root
  rel := link.rel

/-- What is called back for a line of the buffer: its text, if there is the line, the directory of
the session, and the roots of its workspace. -/
def provideLinks (bufferLineNumber : ℕ) (lineText cwd : Option Text) (roots : Option (List Text)) :
    Option (List ILink) :=
  match lineText, cwd, roots with
  | some lineText, some cwd, some roots =>
    if roots = [] then none
    else
      let resolved := findFileLinks lineText cwd roots
      if resolved = [] then none else some (resolved.map (toILink lineText bufferLineNumber))
  | _, _, _ => none

/-- A printable character of ASCII that is no blank. -/
def Narrow (u : UInt16) : Prop := 0x20 < u ∧ u < 0x7f

/-- The text of a line of xterm's buffer, and the cell that shows each of its units.  Characters of
ASCII that stand next to each other have cells next to each other; a character may take two cells,
and a mark none of its own. -/
structure BufferLine where
  text : Text
  cellOf : ℕ → ℕ
  next : ∀ i u v, text[i]? = some u → text[i + 1]? = some v → Narrow u → Narrow v →
    cellOf (i + 1) = cellOf i + 1

/-- The columns of a link are those of the cells that show a part of the line. -/
def Covers (line : BufferLine) (range : BufferRange) (i j : ℕ) : Prop :=
  ∀ x, range.start.x ≤ x ∧ x ≤ range.end_.x ↔ ∃ t, i ≤ t ∧ t < j ∧ x = line.cellOf t + 1

/-- A found token is all that the pattern has where it is: neither it nor its suffix could be
longer, and a word of the pattern that goes into it from before begins within an earlier token. -/
structure Whole (line : Text) (m : ℕ × ℕ × ℕ) : Prop where
  longest : Maximal pathToken lineCol line m
  leftmost : ∀ w j, pathToken.Matches w → w <+: line.drop j → j < m.1 → m.1 < j + w.length →
    ∃ m' ∈ tokenMatches line, m'.1 ≤ j ∧ j < m'.2.2 ∧ m'.2.2 ≤ m.1

/-- A link that is handed to xterm for a line: it shows a whole token and opens what that names. -/
structure Provided (line : BufferLine) (bufferLineNumber : ℕ) (cwd : Text)
    (roots : List (List Text)) (l : ILink) (m : ℕ × ℕ × ℕ) (link : ResolvedFileLink)
    (root rest : List Text) : Prop where
  whole : Whole line.text m
  points : PointsTo line.text cwd roots link (Js.slice line.text m.1 m.2.1)
    (Js.slice line.text m.2.1 m.2.2) root rest
  ilink : l = toILink line.text bufferLineNumber link
  text : l.text = Js.slice line.text m.1 m.2.2
  /-- The range is that of its cells where as many cells as units stand before it. -/
  covers : Covers line l.range m.1 m.2.2 ↔ line.cellOf m.1 = m.1

variable {cwd : Text} {roots : List (List Text)} {m : ℕ × ℕ × ℕ} {n i j : ℕ}

theorem narrow_of_isSegmentUnit (u : UInt16) (h : isSegmentUnit u = true) : Narrow u := by
  simp only [isSegmentUnit, isWord, isDigit, Bool.or_eq_true, Bool.and_eq_true, decide_eq_true_eq,
    List.mem_cons, List.not_mem_nil, or_false, UInt16.le_iff_toNat_le, ← UInt16.toNat_inj] at h
  simp only [Narrow, UInt16.lt_iff_toNat_lt]
  simp [Js.unit, dot] at h ⊢
  omega

theorem over_lit {u : UInt16} (h : Narrow u) : (lit u).Over Narrow := fun _ hv => by
  rwa [of_decide_eq_true hv]

instance : DecidablePred Narrow := fun _ => instDecidableAnd

theorem over_pathToken : pathToken.Over Narrow := by
  have hsegment : segment.Over Narrow := ⟨narrow_of_isSegmentUnit, narrow_of_isSegmentUnit⟩
  have hslash : (lit slash).Over Narrow := over_lit (by decide)
  have hdot : (lit dot).Over Narrow := over_lit (by decide)
  have hslashSegment : slashSegment.Over Narrow := ⟨hslash, hsegment⟩
  have hword (u : UInt16) (h : isWord u = true) : Narrow u :=
    narrow_of_isSegmentUnit u (by rw [isSegmentUnit, h, Bool.true_or])
  have htail (u : UInt16) (h : (isSegmentUnit u || u = slash) = true) : Narrow u := by
    rcases Bool.or_eq_true_iff.1 h with h | h
    · exact narrow_of_isSegmentUnit u h
    · exact hslash u h
  exact ⟨⟨over_lit (by decide), hslashSegment, hslashSegment⟩,
    ⟨hslashSegment, hslashSegment, hslashSegment⟩,
    ⟨hdot, hdot, hslash, narrow_of_isSegmentUnit, htail⟩,
    hsegment, ⟨hslashSegment, hslashSegment⟩, hdot, hword, hword⟩

theorem over_lineCol : lineCol.Over Narrow := by
  have hdigit (u : UInt16) (h : isDigit u = true) : Narrow u :=
    narrow_of_isSegmentUnit u (by simp [isSegmentUnit, isWord, h])
  have hcolonDigits : colonDigits.Over Narrow := ⟨over_lit (by decide), hdigit, hdigit⟩
  exact ⟨hcolonDigits, hcolonDigits⟩

/-- Found tokens are apart. -/
theorem apart_of_mem {line : Text} {m' : ℕ × ℕ × ℕ} (hm : m ∈ tokenMatches line)
    (hm' : m' ∈ tokenMatches line) (hlt : m'.1 < m.1) : m'.2.2 ≤ m.1 := by
  have hpairwise : (tokenMatches line).Pairwise fun m m' => m.1 < m'.1 → m.2.2 ≤ m'.1 := by
    refine (pairwise_execAll [] pathToken_not_nullable).imp ?_
    intro m m' hle _
    exact hle
  have hflip : (tokenMatches line).Pairwise fun m m' => m'.1 < m.1 → m'.2.2 ≤ m.1 :=
    (pairwise_execAll [] pathToken_not_nullable).imp_of_mem fun hm _ hle hlt => by
      have hfound := found_of_mem hm
      have hlt' := hfound.lt
      have hle' := hfound.le
      omega
  exact List.Pairwise.forall_of_forall_of_flip (fun m _ h => absurd h (lt_irrefl _)) hpairwise hflip
    hm' hm hlt

theorem whole_of_mem {line : Text} (hm : m ∈ tokenMatches line) : Whole line m where
  longest :=
    maximal_of_mem_execAll [] pathToken_not_nullable rfl longest_pathToken longest_lineCol hm
  leftmost := by
    intro w j hw hpre hlt _
    obtain ⟨m', hm', hle, hin⟩ := exists_found_of_matches hw hpre
    exact ⟨m', hm', hle, hin, apart_of_mem hm hm' (hle.trans_lt hlt)⟩

theorem narrow_of_found {text : Text} (hm : m ∈ tokenMatches text) {t : ℕ} (ht : m.1 ≤ t)
    (htlt : t < m.2.2) : ∃ u, text[t]? = some u ∧ Narrow u := by
  have hfound := found_of_mem hm
  have hall : ∀ u ∈ Js.slice text m.1 m.2.2, Narrow u := by
    rw [← Js.slice_append_slice hfound.lt.le hfound.le]
    exact List.forall_mem_append.2 ⟨over_pathToken.of_matches hfound.group,
      over_lineCol.of_matches hfound.suffix⟩
  have hlen : t < text.length := htlt.trans_le hfound.len
  refine ⟨text[t], List.getElem?_eq_getElem hlen, hall _ (List.mem_of_getElem? (i := t - m.1) ?_)⟩
  rw [Js.slice, List.getElem?_drop, Nat.add_sub_cancel' ht, List.getElem?_take_of_lt htlt,
    List.getElem?_eq_getElem hlen]

theorem cellOf_add {line : BufferLine}
    (h : ∀ t, i ≤ t → t < j → ∃ u, line.text[t]? = some u ∧ Narrow u)
    (hn : i + n < j) : line.cellOf (i + n) = line.cellOf i + n := by
  induction n with
  | zero => rfl
  | succ n ih =>
    obtain ⟨u, hu, hnarrow⟩ := h (i + n) (Nat.le_add_right i n) (by omega)
    obtain ⟨v, hv, hnarrow'⟩ := h (i + n + 1) (by omega) hn
    rw [← Nat.add_assoc, line.next _ u v hu hv hnarrow hnarrow', ih (by omega), Nat.add_assoc]

/-- The range of a stretch of narrow characters. -/
theorem covers_iff {line : BufferLine} {range : BufferRange} (hij : i < j)
    (h : ∀ t, i ≤ t → t < j → ∃ u, line.text[t]? = some u ∧ Narrow u)
    (hstart : range.start.x = i + 1) (hend : range.end_.x = j) :
    Covers line range i j ↔ line.cellOf i = i := by
  have hcell (t : ℕ) (ht : i ≤ t) (htj : t < j) : line.cellOf t = line.cellOf i + (t - i) := by
    obtain ⟨d, rfl⟩ := Nat.exists_eq_add_of_le ht
    rw [cellOf_add h htj, Nat.add_sub_cancel_left]
  unfold Covers
  rw [hstart, hend]
  constructor
  · intro hcovers
    have hfirst := (hcovers _).2 ⟨i, le_rfl, hij, rfl⟩
    have hlast := (hcovers _).2 ⟨j - 1, by omega, by omega, rfl⟩
    rw [hcell (j - 1) (by omega) (by omega)] at hlast
    omega
  · intro heq x
    constructor
    · rintro ⟨hle, hle'⟩
      refine ⟨x - 1, by omega, by omega, ?_⟩
      rw [hcell (x - 1) (by omega) (by omega)]
      omega
    · rintro ⟨t, ht, htj, rfl⟩
      rw [hcell t ht htj]
      omega

theorem provideLinks_eq_some {line cwd : Text} {roots : List Text} {links : List ILink}
    (h : provideLinks n (some line) (some cwd) (some roots) = some links) :
    links = (findFileLinks line cwd roots).map (toILink line n) := by
  simp only [provideLinks] at h
  split_ifs at h
  exact (Option.some.inj h).symm

/-- The links of a line are apart and in order; each shows a whole token and opens what it names;
and its range is that of its cells exactly where as many cells as units stand before it. -/
theorem provided_links (line : BufferLine) (n : ℕ) (hcwd : Js.startsWith cwd [slash] = true)
    (hroots : ∀ root ∈ roots, ∀ seg ∈ root, Plain seg) {links : List ILink}
    (h : provideLinks n (some line.text) (some cwd) (some (roots.map absText)) = some links) :
    links.Pairwise (fun l l' => l.range.end_.x < l'.range.start.x)
      ∧ ∀ l ∈ links, ∃ m link root rest, Provided line n cwd roots l m link root rest := by
  obtain rfl := provideLinks_eq_some h
  constructor
  · refine List.pairwise_map.2 ((pairwise_findFileLinks _ _ _).imp_of_mem ?_)
    intro l l' hl _ hle
    obtain ⟨m, -, hlink⟩ := mem_findFileLinks.1 hl
    have hend := (columns_of_linkOf hlink).2
    change l.endCol - 1 < l'.startCol
    omega
  · intro l hl
    obtain ⟨link, hlink, rfl⟩ := List.mem_map.1 hl
    obtain ⟨m, hm, hlink⟩ := mem_findFileLinks.1 hlink
    obtain ⟨root, rest, hpoints⟩ := pointsTo_of_linkOf hcwd hroots hm hlink
    have hfound := found_of_mem hm
    obtain ⟨hstart, hend⟩ := columns_of_linkOf hlink
    exact ⟨m, link, root, rest,
      { whole := whole_of_mem hm
        points := hpoints
        ilink := rfl
        text := by rw [toILink, hstart, hend]; rfl
        covers := covers_iff (hfound.lt.trans_le hfound.le) (fun t => narrow_of_found hm) hstart
          (by rw [toILink, hend]; rfl) }⟩

/-- The first character takes two cells. -/
def wideLine : BufferLine where
  text := 0x672c :: " src/a.ts:3".toList.map Js.unit
  cellOf i := if i = 0 then 0 else i + 1
  next := by
    intro i u v hu _ hnarrow _
    cases i with
    | zero =>
      cases hu
      exact absurd hnarrow (by decide)
    | succ i => rfl

/-- The columns of the link are one behind those of its cells. -/
theorem provided_links_wide : ∃ links,
    provideLinks 1 (some wideLine.text) (some noteCwd) (some (noteRoots.map absText)) = some links
      ∧ links.map (fun l => (l.range.start.x, wideLine.cellOf 2 + 1)) = [(3, 4)]
      ∧ ∀ l ∈ links, ∃ m link root rest,
        Provided wideLine 1 noteCwd noteRoots l m link root rest := by
  obtain ⟨links, h⟩ : ∃ links, provideLinks 1 (some wideLine.text) (some noteCwd)
      (some (noteRoots.map absText)) = some links := by
    rw [← Option.isSome_iff_exists]
    decide +kernel
  have hstart : (provideLinks 1 (some wideLine.text) (some noteCwd)
      (some (noteRoots.map absText))).map (fun links => links.map fun l =>
        (l.range.start.x, wideLine.cellOf 2 + 1)) = some [(3, 4)] := by
    decide +kernel
  rw [h] at hstart
  exact ⟨links, h, Option.some.inj hstart, (provided_links wideLine 1 (by decide) (by decide) h).2⟩

/-- The innermost of the roots that contain a path. -/
def Innermost (roots : List (List Text)) (dir root : List Text) : Prop :=
  root ∈ roots ∧ root <+: dir ∧ ∀ r ∈ roots, r <+: dir → r <+: root

/-- A root, and a directory of it as a root of its own. -/
def nestedRoots : List (List Text) :=
  [["repo".toList.map Js.unit], ["repo".toList.map Js.unit, "app".toList.map Js.unit]]

def nestedLine : BufferLine where
  text := "app/a.ts".toList.map Js.unit
  cellOf i := i
  next _ _ _ _ _ _ _ := rfl

/-- The outer root stands first, and the link is to `app/a.ts` of it. -/
theorem nested_root_passed : ¬ ∀ (line : BufferLine) (n : ℕ) (cwd : Text) (roots : List (List Text))
    (links : List ILink), Js.startsWith cwd [slash] = true →
      (∀ root ∈ roots, ∀ seg ∈ root, Plain seg) →
      provideLinks n (some line.text) (some cwd) (some (roots.map absText)) = some links →
      ∀ l ∈ links, ∃ token suffix root, pathToken.Matches token ∧ lineCol.Matches suffix
        ∧ l.text = token ++ suffix ∧ l.root = absText root
        ∧ Innermost roots (target cwd token) root := by
  intro h
  let cwd : Text := "/repo".toList.map Js.unit
  let l : ILink :=
    { range := { start := { x := 1, y := 1 }, end_ := { x := 8, y := 1 } }
      text := nestedLine.text
      root := absText ["repo".toList.map Js.unit]
      rel := nestedLine.text }
  obtain ⟨token, suffix, root, -, hsuffix, htext, heq, hmem, -, hinner⟩ :=
    h nestedLine 1 cwd nestedRoots [l] (by decide) (by decide) (by decide +kernel) l
      (List.mem_singleton.2 rfl)
  obtain rfl : suffix = [] := by
    cases suffix with
    | nil => rfl
    | cons u t =>
      have hu := begins_of_matches hsuffix
      rw [lineCol, begins, begins_seq rfl, colonDigits, begins_seq rfl] at hu
      obtain rfl := of_decide_eq_true hu
      have hcolon : Js.unit ':' ∈ nestedLine.text := by
        change Js.unit ':' ∈ l.text
        rw [htext]
        simp
      exact absurd hcolon (by decide)
  rw [List.append_nil] at htext
  subst htext
  have hplain : ∀ root ∈ nestedRoots, ∀ seg ∈ root, Plain seg := by decide
  obtain rfl : ["repo".toList.map Js.unit] = root :=
    absText_inj (by decide) (hplain root hmem) heq
  exact absurd (hinner ["repo".toList.map Js.unit, "app".toList.map Js.unit] (by decide)
    (by decide +kernel)) (by decide)

end FileLinks

end BuilderPro
