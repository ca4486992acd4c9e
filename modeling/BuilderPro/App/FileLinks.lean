import BuilderPro.Lib.JsString
import BuilderPro.Lib.RegExp

/-!
# Links to files in a line of a terminal

`findFileLinks` searches a line for what looks like a path, reads it against the directory of the
session and keeps what lies under a root of the workspace.  For roots in their canonical form a link
is to the file that its token names, by its way from the first root that contains it (`PointsTo`).
-/

namespace BuilderPro

open Js (Text)

namespace FileLinks

def slash : UInt16 := Js.unit '/'

def dot : UInt16 := Js.unit '.'

def tilde : UInt16 := Js.unit '~'

/-- `\d` -/
def isDigit (u : UInt16) : Bool := Js.unit '0' ≤ u && u ≤ Js.unit '9'

/-- `\w` -/
def isWord (u : UInt16) : Bool :=
  Js.unit 'A' ≤ u && u ≤ Js.unit 'Z' || Js.unit 'a' ≤ u && u ≤ Js.unit 'z' || isDigit u ||
    u = Js.unit '_'

/-- `[\w.@+-]` -/
def isSegmentUnit (u : UInt16) : Bool :=
  isWord u || u ∈ [dot, Js.unit '@', Js.unit '+', Js.unit '-']

/-! ### `TOKEN_PATTERN` -/

def lit (u : UInt16) : RegExp UInt16 := .one fun v => v = u

/-- `[\w.@+-]+` -/
def segment : RegExp UInt16 := .plus (.one isSegmentUnit)

/-- `/[\w.@+-]+` -/
def slashSegment : RegExp UInt16 := .seq (lit slash) segment

/-- `~/a` or `~/a/b` -/
def homeRelative : RegExp UInt16 := .seq (lit tilde) (.seq slashSegment (.star slashSegment))

/-- `/a/b`, of two segments or more. -/
def absolute : RegExp UInt16 := .seq slashSegment (.plus slashSegment)

/-- `./a` or `../a`, with any slashes behind. -/
def dotRelative : RegExp UInt16 :=
  .seq (lit dot) (.seq (.opt (lit dot)) (.seq (lit slash) (.seq (.one isSegmentUnit)
    (.star (.one fun u => isSegmentUnit u || u = slash)))))

/-- `a/b.ext` -/
def bareRelative : RegExp UInt16 :=
  .seq segment (.seq (.plus slashSegment) (.seq (lit dot) (.plus (.one isWord))))

/-- The group of `TOKEN_PATTERN`. -/
def pathToken : RegExp UInt16 := .alt homeRelative (.alt absolute (.alt dotRelative bareRelative))

/-- `:\d+` -/
def colonDigits : RegExp UInt16 := .seq (lit (Js.unit ':')) (.plus (.one isDigit))

/-- What follows the group: `:line`, and perhaps `:col`. -/
def lineCol : RegExp UInt16 := .opt (.seq colonDigits (.opt colonDigits))

/-! ### The functions -/

def stripTrailingSlash (root : Text) : Text :=
  if root ≠ [slash] ∧ root.getLast? = some slash then root.dropLast else root

/-- The body of `normalizePosix`'s loop. -/
def pushSegment (isAbsolute : Bool) (out : List Text) (seg : Text) : List Text :=
  if seg = [dot, dot] then
    if out ≠ [] ∧ out.getLast? ≠ some [dot, dot] then out.dropLast
    else if isAbsolute then out else out ++ [[dot, dot]]
  else out ++ [seg]

def normalizePosix (p : Text) : Text :=
  let isAbsolute := Js.startsWith p [slash]
  let segments := (Js.split p slash).filter fun seg => seg ≠ [] ∧ seg ≠ [dot]
  let out := segments.foldl (pushSegment isAbsolute) []
  (if isAbsolute then [slash] else []) ++ Js.join out [slash]

def posixJoin (base rel : Text) : Text :=
  if rel = [] then base else stripTrailingSlash base ++ slash :: rel

/-- What a root makes of a path: the root, and the way from it. -/
def matchRoot (resolved root : Text) : Option (Text × Text) :=
  let normalizedRoot := stripTrailingSlash root
  if resolved = normalizedRoot then some (root, [])
  else
    let rootPrefix := if normalizedRoot = [slash] then [slash] else normalizedRoot ++ [slash]
    if Js.startsWith resolved rootPrefix then some (root, resolved.drop rootPrefix.length) else none

def matchWorkspaceRoot (absPath : Text) (roots : List Text) : Option (Text × Text) :=
  roots.findSome? (matchRoot (normalizePosix absPath))

/-- `/^\s+(\S+)/` -/
def nextWord (rest : Text) : Option Text :=
  let word := (Js.trimStart rest).takeWhile fun u => !Js.isWhiteSpace u
  if rest.head?.any Js.isWhiteSpace ∧ word ≠ [] then some word else none

def isTrimmedPrefix (line : Text) (matchEnd : ℕ) : Bool :=
  let rest := line.drop matchEnd
  Js.startsWith rest [slash] || (nextWord rest).any fun word => word.contains slash

structure ResolvedFileLink where
  startCol : ℕ
  endCol : ℕ
  root : Text
  rel : Text

/-- The matches of `TOKEN_PATTERN`: where each begins, where its group ends and where it ends. -/
def tokenMatches (line : Text) : List (ℕ × ℕ × ℕ) :=
  RegExp.execAll pathToken lineCol line.length 0 line

/-- The body of `findFileLinks`' loop. -/
def linkOf (line normalizedCwd : Text) (roots : List Text) (m : ℕ × ℕ × ℕ) :
    Option ResolvedFileLink :=
  let token := Js.slice line m.1 m.2.1
  if Js.startsWith token [tilde, slash] then none
  else
    let absolute := if Js.startsWith token [slash] then token else posixJoin normalizedCwd token
    (matchWorkspaceRoot absolute roots).bind fun found =>
      if found.2 = [] ∧ isTrimmedPrefix line m.2.2 then none
      else some { startCol := m.1 + 1, endCol := m.2.2 + 1, root := found.1, rel := found.2 }

def findFileLinks (line cwd : Text) (roots : List Text) : List ResolvedFileLink :=
  if roots = [] then []
  else (tokenMatches line).filterMap (linkOf line (normalizePosix cwd) roots)

/-! ### Where a path leads -/

/-- A name of a directory or a file, as a path that is resolved has it. -/
def Plain (seg : Text) : Prop := seg ≠ [] ∧ seg ≠ [dot] ∧ seg ≠ [dot, dot] ∧ slash ∉ seg

instance : DecidablePred Plain := fun _ => instDecidableAnd

/-- One segment further, from a directory given by the names on the way to it. -/
def step (dir : List Text) (seg : Text) : List Text :=
  if seg = [] ∨ seg = [dot] then dir else if seg = [dot, dot] then dir.dropLast else dir ++ [seg]

/-- Where a path leads from a directory. -/
def walk (dir : List Text) (path : Text) : List Text := (Js.split path slash).foldl step dir

/-- The canonical absolute path. -/
def absText (dir : List Text) : Text := slash :: Js.join dir [slash]

variable {dir rest l : List Text} {seg p cwd token : Text}

theorem split_append_slash (a b : Text) :
    Js.split (a ++ slash :: b) slash = Js.split a slash ++ Js.split b slash :=
  List.splitOn_append_cons_self a b

theorem walk_append_slash (dir : List Text) (a b : Text) :
    walk dir (a ++ slash :: b) = walk (walk dir a) b := by
  rw [walk, split_append_slash, List.foldl_append, walk, walk]

theorem walk_slash (dir : List Text) (p : Text) : walk dir (slash :: p) = walk dir p :=
  walk_append_slash dir [] p

theorem split_join (hl : ∀ seg ∈ l, slash ∉ seg) (hne : l ≠ []) :
    Js.split (Js.join l [slash]) slash = l :=
  List.splitOn_intercalate slash hl hne

theorem foldl_step_plain (hl : ∀ seg ∈ l, Plain seg) : l.foldl step dir = dir ++ l := by
  induction l generalizing dir with
  | nil => simp
  | cons seg l ih =>
    obtain ⟨hnil, hdot, hdots, -⟩ := hl seg (by simp)
    rw [List.foldl_cons, ih fun seg hseg => hl seg (by simp [hseg])]
    simp [step, hnil, hdot, hdots]

theorem walk_join (hl : ∀ seg ∈ l, Plain seg) : walk dir (Js.join l [slash]) = dir ++ l := by
  by_cases hne : l = []
  · subst hne
    simp [walk, Js.join, Js.split, step]
  · rw [walk, split_join (fun seg hseg => (hl seg hseg).2.2.2) hne, foldl_step_plain hl]

theorem walk_absText (hl : ∀ seg ∈ l, Plain seg) : walk [] (absText l) = l := by
  rw [absText, walk_slash, walk_join hl, List.nil_append]

theorem plain_step (hdir : ∀ seg ∈ dir, Plain seg) (hseg : slash ∉ seg) :
    ∀ seg' ∈ step dir seg, Plain seg' := by
  unfold step
  split_ifs with hskip hdots
  · exact hdir
  · exact fun seg' hmem => hdir seg' ((List.dropLast_sublist _).subset hmem)
  · intro seg' hmem
    rcases List.mem_append.1 hmem with hmem | hmem
    · exact hdir seg' hmem
    · rw [List.mem_singleton.1 hmem]
      exact ⟨fun h => hskip (.inl h), fun h => hskip (.inr h), hdots, hseg⟩

theorem plain_foldl_step (hl : ∀ seg ∈ l, slash ∉ seg) (hdir : ∀ seg ∈ dir, Plain seg) :
    ∀ seg ∈ l.foldl step dir, Plain seg := by
  induction l generalizing dir with
  | nil => exact hdir
  | cons seg l ih =>
    exact ih (fun seg hseg => hl seg (by simp [hseg])) (plain_step hdir (hl seg (by simp)))

theorem plain_walk (hdir : ∀ seg ∈ dir, Plain seg) (p : Text) : ∀ seg ∈ walk dir p, Plain seg :=
  plain_foldl_step (fun _ => Js.notMem_of_mem_split) hdir

theorem plain_nil : ∀ seg ∈ ([] : List Text), Plain seg := by simp

theorem absText_inj (hdir : ∀ seg ∈ dir, Plain seg) (hrest : ∀ seg ∈ rest, Plain seg)
    (h : absText dir = absText rest) : dir = rest := by
  rw [← walk_absText hdir, h, walk_absText hrest]

/-- The loop of `normalizePosix` for an absolute path. -/
theorem foldl_pushSegment (hdir : ∀ seg ∈ dir, Plain seg) (hl : ∀ seg ∈ l, slash ∉ seg) :
    (l.filter fun seg => seg ≠ [] ∧ seg ≠ [dot]).foldl (pushSegment true) dir
      = l.foldl step dir := by
  induction l generalizing dir with
  | nil => rfl
  | cons seg l ih =>
    have hrest := ih (plain_step hdir (hl seg (by simp))) fun seg hseg => hl seg (by simp [hseg])
    rw [List.foldl_cons, ← hrest]
    by_cases hskip : seg = [] ∨ seg = [dot]
    · rw [List.filter_cons_of_neg (by rcases hskip with rfl | rfl <;> simp), step, if_pos hskip]
    · rw [not_or] at hskip
      rw [List.filter_cons_of_pos (by simpa using hskip), List.foldl_cons]
      congr 1
      rw [pushSegment, step, if_neg (not_or.2 hskip)]
      by_cases hdots : seg = [dot, dot]
      · rw [if_pos hdots, if_pos hdots]
        split_ifs with hpop htrue
        · rfl
        · -- a directory on the way is never `..`, so this is the root
          rw [Decidable.not_and_iff_not_or_not, not_not, not_not] at hpop
          rcases hpop with rfl | hlast
          · rfl
          · exact absurd rfl (hdir _ (List.mem_of_getLast? hlast)).2.2.1
        · exact absurd rfl htrue
      · rw [if_neg hdots, if_neg hdots]

theorem normalizePosix_eq (hp : Js.startsWith p [slash] = true) :
    normalizePosix p = absText (walk [] p) := by
  rw [normalizePosix, hp]
  simp only [if_true]
  rw [foldl_pushSegment plain_nil fun _ => Js.notMem_of_mem_split]
  rfl

theorem split_absText (hl : ∀ seg ∈ l, Plain seg) (hne : l ≠ []) :
    Js.split (absText l) slash = [] :: l := by
  rw [absText, Js.split_cons, if_pos rfl, split_join (fun seg hseg => (hl seg hseg).2.2.2) hne]

theorem getLast?_absText (hl : ∀ seg ∈ l, Plain seg) (hne : l ≠ []) :
    (absText l).getLast? ≠ some slash := by
  intro hlast
  obtain ⟨t, ht⟩ := List.getLast?_eq_some_iff.1 hlast
  have hsplit : [] :: l = Js.split t slash ++ [[]] := by
    have h : Js.split (absText l) slash = Js.split (t ++ [slash]) slash := by rw [ht]
    rwa [split_append_slash, split_absText hl hne] at h
  have hnil : ([] : Text) ∈ l := by
    have h := congrArg List.getLast? hsplit
    rw [List.getLast?_cons_of_ne_nil hne, List.getLast?_concat] at h
    exact List.mem_of_getLast? h
  exact (hl [] hnil).1 rfl

theorem stripTrailingSlash_absText (hl : ∀ seg ∈ l, Plain seg) :
    stripTrailingSlash (absText l) = absText l := by
  rw [stripTrailingSlash, if_neg]
  rintro ⟨hroot, hlast⟩
  by_cases hne : l = []
  · subst hne
    exact hroot rfl
  · exact getLast?_absText hl hne hlast

theorem absText_append (hdir : dir ≠ []) (hrest : rest ≠ []) :
    absText (dir ++ rest) = absText dir ++ slash :: Js.join rest [slash] := by
  rw [absText, Js.join_append hdir hrest, absText]
  simp

/-! ### The root of a path -/

variable {root : List Text}

theorem prefix_of_startsWith (hdir : ∀ seg ∈ dir, Plain seg) (hroot : ∀ seg ∈ root, Plain seg)
    (hnil : root ≠ []) (h : Js.startsWith (absText dir) (absText root ++ [slash]) = true) :
    root <+: dir := by
  obtain ⟨t, ht⟩ := List.isPrefixOf_iff_prefix.1 h
  rw [List.append_assoc, List.singleton_append] at ht
  by_cases hne : dir = []
  · subst hne
    have hlength := congrArg List.length ht
    simp [absText, Js.join] at hlength
  · have hsplit : Js.split (absText root ++ slash :: t) slash = [] :: dir := by
      rw [ht, split_absText hdir hne]
    rw [split_append_slash, split_absText hroot hnil, List.cons_append] at hsplit
    exact ⟨_, (List.cons.inj hsplit).2⟩

/-- A root contains a path by the names on the way, and the rest of the way is what is left. -/
theorem matchRoot_absText (hdir : ∀ seg ∈ dir, Plain seg) (hroot : ∀ seg ∈ root, Plain seg) :
    matchRoot (absText dir) (absText root) =
      if root <+: dir then some (absText root, Js.join (dir.drop root.length) [slash])
      else none := by
  rw [matchRoot, stripTrailingSlash_absText hroot]
  by_cases heq : absText dir = absText root
  · obtain rfl := absText_inj hdir hroot heq
    simp [Js.join]
  · rw [if_neg heq]
    by_cases hnil : root = []
    · subst hnil
      have hslash : absText [] = [slash] := rfl
      rw [hslash, if_pos rfl, if_pos (by simp [Js.startsWith, absText]), if_pos List.nil_prefix]
      simp [absText]
    · have hne : absText root ≠ [slash] := by
        intro h
        exact hnil (absText_inj hroot plain_nil h)
      rw [if_neg hne]
      by_cases hpre : root <+: dir
      · obtain ⟨rest, rfl⟩ := hpre
        have hrest : rest ≠ [] := by
          rintro rfl
          simp at heq
        rw [absText_append hnil hrest, if_pos (by simp [Js.startsWith]),
          if_pos (List.prefix_append _ _)]
        simp
      · rw [if_neg hpre, if_neg]
        intro hstarts
        exact hpre (prefix_of_startsWith hdir hroot hnil hstarts)

theorem findSome?_map_ite {α β γ : Type} (f : α → β) (g : β → Option γ) (k : α → γ) (p : α → Bool)
    {as : List α} (h : ∀ a ∈ as, g (f a) = if p a then some (k a) else none) :
    (as.map f).findSome? g = (as.find? p).map k := by
  induction as with
  | nil => rfl
  | cons a as ih =>
    rw [List.map_cons, List.findSome?_cons, h a (by simp), ih fun a ha => h a (by simp [ha])]
    by_cases hp : p a = true
    · simp [hp]
    · simp [hp]

variable {roots : List (List Text)}

/-- The first root that contains a path, and the way from it. -/
def containing (roots : List (List Text)) (dir : List Text) : Option (List Text) :=
  roots.find? fun root => root.isPrefixOf dir

theorem matchWorkspaceRoot_eq (hp : Js.startsWith p [slash] = true)
    (hroots : ∀ root ∈ roots, ∀ seg ∈ root, Plain seg) :
    matchWorkspaceRoot p (roots.map absText) = (containing roots (walk [] p)).map fun root =>
      (absText root, Js.join ((walk [] p).drop root.length) [slash]) := by
  rw [matchWorkspaceRoot, normalizePosix_eq hp]
  refine findSome?_map_ite absText _ _ _ fun root hroot => ?_
  rw [matchRoot_absText (plain_walk plain_nil p) (hroots root hroot)]
  simp only [List.isPrefixOf_iff_prefix]

/-! ### The links of a line -/

/-- The directory against which a token is read. -/
def base (cwd token : Text) : List Text :=
  if Js.startsWith token [slash] then [] else walk [] cwd

/-- Where a token leads. -/
def target (cwd token : Text) : List Text := walk (base cwd token) token

theorem walk_posixJoin (hcwd : Js.startsWith cwd [slash] = true) (hne : token ≠ []) :
    Js.startsWith (posixJoin (normalizePosix cwd) token) [slash] = true
      ∧ walk [] (posixJoin (normalizePosix cwd) token) = walk (walk [] cwd) token := by
  have hplain := plain_walk plain_nil cwd
  rw [posixJoin, if_neg hne, normalizePosix_eq hcwd, stripTrailingSlash_absText hplain]
  refine ⟨by simp [Js.startsWith, absText], ?_⟩
  rw [walk_append_slash, walk_absText hplain]

/-- A link: the token and what follows it, and the way to where the token leads. -/
structure PointsTo (line cwd : Text) (roots : List (List Text)) (link : ResolvedFileLink)
    (token suffix : Text) (root rest : List Text) : Prop where
  /-- The columns show the token and its suffix. -/
  shown : Js.slice line (link.startCol - 1) (link.endCol - 1) = token ++ suffix
  isToken : pathToken.Matches token
  isSuffix : lineCol.Matches suffix
  notHome : ¬[tilde, slash] <+: token
  /-- It is the first root that contains where the token leads. -/
  contains : containing roots (target cwd token) = some root
  way : target cwd token = root ++ rest
  plain : ∀ seg ∈ rest, Plain seg
  root_eq : link.root = absText root
  rel_eq : link.rel = Js.join rest [slash]
  /-- From its root, the link leads where the token does. -/
  leads : walk root link.rel = target cwd token
  notTrimmed : rest = [] → isTrimmedPrefix line (link.endCol - 1) = false

theorem pathToken_not_nullable : pathToken.nullable = false := by decide

variable {line : Text} {m : ℕ × ℕ × ℕ} {link : ResolvedFileLink}

theorem found_of_mem (hm : m ∈ tokenMatches line) : RegExp.Found pathToken lineCol line m :=
  (RegExp.found_of_mem_execAll [] pathToken_not_nullable hm).2

theorem plain_target (cwd token : Text) : ∀ seg ∈ target cwd token, Plain seg := by
  refine plain_walk ?_ token
  unfold base
  split_ifs
  · exact plain_nil
  · exact plain_walk plain_nil cwd

theorem join_eq_nil (hl : ∀ seg ∈ l, Plain seg) : Js.join l [slash] = [] ↔ l = [] := by
  constructor
  · intro h
    have hwalk : walk [] (Js.join l [slash]) = [] ++ l := walk_join hl
    rw [h] at hwalk
    simpa [walk, Js.split, step] using hwalk.symm
  · rintro rfl
    rfl

theorem containing_eq_some (h : containing roots dir = some root) : root <+: dir := by
  have hpre := List.find?_some h
  exact List.isPrefixOf_iff_prefix.1 hpre

/-- The rest of the way from the root that contains a token's target. -/
theorem way_of_containing (h : containing roots (target cwd token) = some root) :
    ∃ rest, root ++ rest = target cwd token ∧ ∀ seg ∈ rest, Plain seg := by
  obtain ⟨rest, hrest⟩ := containing_eq_some h
  exact ⟨rest, hrest, fun seg hseg => plain_target cwd token seg (by simp [← hrest, hseg])⟩

/-- What a token becomes, by where it leads. -/
theorem linkOf_eq (hcwd : Js.startsWith cwd [slash] = true)
    (hroots : ∀ root ∈ roots, ∀ seg ∈ root, Plain seg) (hm : m ∈ tokenMatches line)
    (htoken : token = Js.slice line m.1 m.2.1) :
    linkOf line (normalizePosix cwd) (roots.map absText) m =
      if Js.startsWith token [tilde, slash] then none
      else (containing roots (target cwd token)).bind fun root =>
        if root = target cwd token ∧ isTrimmedPrefix line m.2.2 then none
        else some
          { startCol := m.1 + 1
            endCol := m.2.2 + 1
            root := absText root
            rel := Js.join ((target cwd token).drop root.length) [slash] } := by
  have hne : token ≠ [] := by
    rw [htoken]
    exact RegExp.ne_nil_of_matches pathToken_not_nullable (found_of_mem hm).group
  have hmatch : matchWorkspaceRoot
      (if Js.startsWith token [slash] then token else posixJoin (normalizePosix cwd) token)
      (roots.map absText) = (containing roots (target cwd token)).map fun root =>
        (absText root, Js.join ((target cwd token).drop root.length) [slash]) := by
    unfold target base
    by_cases hslash : Js.startsWith token [slash] = true
    · rw [if_pos hslash, if_pos hslash, matchWorkspaceRoot_eq hslash hroots]
    · obtain ⟨habs, hwalk⟩ := walk_posixJoin hcwd hne
      rw [if_neg hslash, if_neg hslash, matchWorkspaceRoot_eq habs hroots, hwalk]
  simp only [linkOf, ← htoken, hmatch, Option.bind_map]
  congr 1
  refine Option.bind_congr fun root hroot => ?_
  obtain ⟨rest, hrest, hplain⟩ := way_of_containing hroot
  simp only [Function.comp, ← hrest, List.drop_left, join_eq_nil hplain, List.self_eq_append_right]

/-- The links a token becomes. -/
theorem linkOf_eq_some_iff (hcwd : Js.startsWith cwd [slash] = true)
    (hroots : ∀ root ∈ roots, ∀ seg ∈ root, Plain seg) (hm : m ∈ tokenMatches line)
    (htoken : token = Js.slice line m.1 m.2.1) :
    linkOf line (normalizePosix cwd) (roots.map absText) m = some link ↔
      ¬[tilde, slash] <+: token
        ∧ ∃ root, containing roots (target cwd token) = some root
          ∧ (root = target cwd token → isTrimmedPrefix line m.2.2 = false)
          ∧ link =
            { startCol := m.1 + 1
              endCol := m.2.2 + 1
              root := absText root
              rel := Js.join ((target cwd token).drop root.length) [slash] } := by
  rw [linkOf_eq hcwd hroots hm htoken]
  constructor
  · intro h
    split_ifs at h with hhome
    obtain ⟨root, hroot, h⟩ := Option.bind_eq_some_iff.1 h
    split_ifs at h with htrimmed
    obtain rfl := Option.some.inj h
    exact ⟨fun h => hhome (List.isPrefixOf_iff_prefix.2 h), root, hroot,
      fun heq => Bool.eq_false_iff.2 fun h => htrimmed ⟨heq, h⟩, rfl⟩
  · rintro ⟨hhome, root, hroot, htrimmed, rfl⟩
    have hstarts : ¬Js.startsWith token [tilde, slash] = true := fun h =>
      hhome (List.isPrefixOf_iff_prefix.1 h)
    rw [if_neg hstarts, hroot, Option.bind_some,
      if_neg fun h => Bool.eq_false_iff.1 (htrimmed h.1) h.2]

theorem tokenMatches_inj {m' : ℕ × ℕ × ℕ} (hm : m ∈ tokenMatches line)
    (hm' : m' ∈ tokenMatches line) (h : m.1 = m'.1) : m = m' := by
  have hpairwise : (tokenMatches line).Pairwise fun m m' => m.1 = m'.1 → m = m' :=
    (RegExp.pairwise_execAll [] pathToken_not_nullable).imp_of_mem fun hm _ hle heq => by
      have hfound := found_of_mem hm
      have hlt := hfound.lt
      have hle' := hfound.le
      omega
  exact List.Pairwise.forall_of_forall_of_flip (fun m _ _ => rfl) hpairwise
    (hpairwise.imp fun h heq => (h heq.symm).symm) hm hm' h

theorem columns_of_linkOf {roots : List Text} (h : linkOf line cwd roots m = some link) :
    link.startCol = m.1 + 1 ∧ link.endCol = m.2.2 + 1 := by
  simp only [linkOf] at h
  split at h
  · cases h
  · obtain ⟨found, -, h⟩ := Option.bind_eq_some_iff.1 h
    split at h
    · cases h
    · obtain rfl := Option.some.inj h
      exact ⟨rfl, rfl⟩

theorem mem_findFileLinks {roots : List Text} : link ∈ findFileLinks line cwd roots ↔
    ∃ m ∈ tokenMatches line, linkOf line (normalizePosix cwd) roots m = some link := by
  unfold findFileLinks
  split_ifs with hnil
  · subst hnil
    refine iff_of_false (by simp) ?_
    rintro ⟨m, -, h⟩
    simp [linkOf, matchWorkspaceRoot] at h
  · exact List.mem_filterMap

theorem pairwise_findFileLinks (line cwd : Text) (roots : List Text) :
    (findFileLinks line cwd roots).Pairwise fun link link' => link.endCol ≤ link'.startCol := by
  unfold findFileLinks
  split_ifs
  · exact .nil
  · refine List.Pairwise.filterMap _ ?_ (RegExp.pairwise_execAll [] pathToken_not_nullable)
    intro m m' hle link hlink link' hlink'
    rw [(columns_of_linkOf hlink).2, (columns_of_linkOf hlink').1]
    exact Nat.succ_le_succ hle

/-- A link is to where its token leads. -/
theorem pointsTo_of_linkOf (hcwd : Js.startsWith cwd [slash] = true)
    (hroots : ∀ root ∈ roots, ∀ seg ∈ root, Plain seg) (hm : m ∈ tokenMatches line)
    (hlink : linkOf line (normalizePosix cwd) (roots.map absText) m = some link) :
    ∃ root rest, PointsTo line cwd roots link (Js.slice line m.1 m.2.1) (Js.slice line m.2.1 m.2.2)
      root rest := by
  have hfound := found_of_mem hm
  obtain ⟨token, htoken⟩ : ∃ token, token = Js.slice line m.1 m.2.1 := ⟨_, rfl⟩
  obtain ⟨hhome, root, hroot, htrimmed, rfl⟩ :=
    (linkOf_eq_some_iff hcwd hroots hm htoken).1 hlink
  obtain ⟨rest, hrest, hplain⟩ := way_of_containing hroot
  have hdrop : (target cwd token).drop root.length = rest := by
    rw [← hrest, List.drop_left]
  rw [← htoken]
  refine ⟨root, rest, ?_⟩
  exact
    { shown := by rw [htoken, Js.slice_append_slice hfound.lt.le hfound.le]; rfl
      isToken := htoken ▸ hfound.group
      isSuffix := hfound.suffix
      notHome := hhome
      contains := hroot
      way := hrest.symm
      plain := hplain
      root_eq := rfl
      rel_eq := by rw [hdrop]
      leads := by rw [hdrop, walk_join hplain, hrest]
      notTrimmed := by
        rintro rfl
        rw [List.append_nil] at hrest
        exact htrimmed hrest }

/-- The links of a line are apart and in order, and each is to where its token leads. -/
theorem links_point (line : Text) (hcwd : Js.startsWith cwd [slash] = true)
    (hroots : ∀ root ∈ roots, ∀ seg ∈ root, Plain seg) :
    (findFileLinks line cwd (roots.map absText)).Pairwise
        (fun link link' => link.endCol ≤ link'.startCol)
      ∧ ∀ link ∈ findFileLinks line cwd (roots.map absText), ∃ token suffix root rest,
        PointsTo line cwd roots link token suffix root rest := by
  refine ⟨pairwise_findFileLinks _ _ _, fun link hlink => ?_⟩
  obtain ⟨m, hm, hlink⟩ := mem_findFileLinks.1 hlink
  exact ⟨_, _, pointsTo_of_linkOf hcwd hroots hm hlink⟩

/-- A line of a compiler. -/
def noteLine : Text := "see ../src/a.ts:3".toList.map Js.unit

def noteCwd : Text := "/repo/lib".toList.map Js.unit

def noteRoots : List (List Text) := [["repo".toList.map Js.unit]]

theorem links_point_note :
    (findFileLinks noteLine noteCwd (noteRoots.map absText)).map ResolvedFileLink.startCol = [5]
      ∧ ∀ link ∈ findFileLinks noteLine noteCwd (noteRoots.map absText),
        ∃ token suffix root rest, PointsTo noteLine noteCwd noteRoots link token suffix root rest :=
  ⟨by decide +kernel, (links_point noteLine (by decide) (by decide)).2⟩

/-- Where a word of the pattern begins, a token is found. -/
theorem exists_found_of_matches {j : ℕ} (htoken : pathToken.Matches token)
    (hpre : token <+: line.drop j) : ∃ m ∈ tokenMatches line, m.1 ≤ j ∧ j < m.2.2 := by
  obtain ⟨rest, hrest⟩ := hpre
  have hcaptures : (rest, rest) ∈ RegExp.captures pathToken lineCol (line.drop j) :=
    RegExp.mem_captures.2 ⟨token, [], htoken, .inl rfl, by simp [hrest], rfl⟩
  obtain ⟨m, hm, hle, hlt⟩ := RegExp.exists_mem_execAll (i := 0) pathToken_not_nullable le_rfl
    (List.ne_nil_of_mem hcaptures)
  rw [Nat.zero_add] at hle hlt
  exact ⟨m, hm, hle, hlt⟩

/-- A token is found wherever one begins, and it is a link unless it is under the home directory,
under no root, or a root at which a longer path is cut. -/
theorem linked_iff (line : Text) (hcwd : Js.startsWith cwd [slash] = true)
    (hroots : ∀ root ∈ roots, ∀ seg ∈ root, Plain seg) :
    (∀ token j, pathToken.Matches token → token <+: line.drop j →
        ∃ m ∈ tokenMatches line, m.1 ≤ j ∧ j < m.2.2)
      ∧ ∀ m ∈ tokenMatches line,
        (∃ link ∈ findFileLinks line cwd (roots.map absText), link.startCol = m.1 + 1)
          ↔ ¬[tilde, slash] <+: Js.slice line m.1 m.2.1
            ∧ ∃ root, containing roots (target cwd (Js.slice line m.1 m.2.1)) = some root
              ∧ (root = target cwd (Js.slice line m.1 m.2.1) →
                isTrimmedPrefix line m.2.2 = false) := by
  refine ⟨fun token j => exists_found_of_matches, fun m hm => ?_⟩
  obtain ⟨token, htoken⟩ : ∃ token, token = Js.slice line m.1 m.2.1 := ⟨_, rfl⟩
  rw [← htoken]
  constructor
  · rintro ⟨link, hlink, hstart⟩
    obtain ⟨m', hm', hlink⟩ := mem_findFileLinks.1 hlink
    obtain rfl := tokenMatches_inj hm hm' (by
      have hcol := (columns_of_linkOf hlink).1
      omega)
    obtain ⟨hhome, root, hroot, htrimmed, -⟩ :=
      (linkOf_eq_some_iff hcwd hroots hm htoken).1 hlink
    exact ⟨hhome, root, hroot, htrimmed⟩
  · rintro ⟨hhome, root, hroot, htrimmed⟩
    have hlink := (linkOf_eq_some_iff hcwd hroots hm htoken).2 ⟨hhome, root, hroot, htrimmed, rfl⟩
    exact ⟨_, mem_findFileLinks.2 ⟨m, hm, hlink⟩, rfl⟩

theorem linked_iff_note : (tokenMatches noteLine).map Prod.fst = [4]
    ∧ ∀ m ∈ tokenMatches noteLine,
      (∃ link ∈ findFileLinks noteLine noteCwd (noteRoots.map absText), link.startCol = m.1 + 1)
        ↔ ¬[tilde, slash] <+: Js.slice noteLine m.1 m.2.1
          ∧ ∃ root, containing noteRoots (target noteCwd (Js.slice noteLine m.1 m.2.1)) = some root
            ∧ (root = target noteCwd (Js.slice noteLine m.1 m.2.1) →
              isTrimmedPrefix noteLine m.2.2 = false) :=
  ⟨by decide +kernel, (linked_iff noteLine (by decide) (by decide)).2⟩

end FileLinks

end BuilderPro
