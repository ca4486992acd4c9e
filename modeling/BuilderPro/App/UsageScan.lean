import BuilderPro.App.UsageStats
import BuilderPro.Lib.Runs

/-!
# What a usage scan counts

Every row of the cache was parsed from a file that some scan found (`inv_run`).  A scan counts every
line once, whatever the cache holds, as long as no file of it has a line that makes the parser panic
or stop early and none is found with an earlier modification time and size but other contents
(`scan_exact`).
-/

namespace BuilderPro

open Tally

section Counted

variable (fromStr : String → Option Json)

/-- What a line counts, by itself. -/
def countedLine (line : List UInt8) : Option (UsageKey × Tokens) := do
  let text ← OscParser.fromUtf8 line
  let e ← (fromStr text).bind usageEntry
  let day ← e.day
  some (usageKey day e.cwd e.family, e.tokens)

def fileLines (contents : Option (List UInt8)) : List (List UInt8) :=
  contents.elim [] (bufLines [])

def countedLines (contents : Option (List UInt8)) : List (UsageKey × Tokens) :=
  (fileLines contents).filterMap (countedLine fromStr)

/-- No usage line has a timestamp whose tenth byte is within a character, and no line that is not
UTF-8 comes before a line that counts. -/
structure CleanLines (lines : List (List UInt8)) : Prop where
  days : ∀ line ∈ lines, ∀ text e, OscParser.fromUtf8 line = some text →
    (fromStr text).bind usageEntry = some e → e.day.isSome
  decodes : ∀ pre line post, lines = pre ++ line :: post → OscParser.fromUtf8 line = none →
    ∀ l ∈ post, countedLine fromStr l = none

variable {fromStr}

theorem CleanLines.tail {line : List UInt8} {lines : List (List UInt8)}
    (h : CleanLines fromStr (line :: lines)) : CleanLines fromStr lines where
  days l hl := h.days l (List.mem_cons_of_mem _ hl)
  decodes pre l post heq := h.decodes (line :: pre) l post (by rw [heq, List.cons_append])

/-- Lines that are all UTF-8, their timestamps with a day. -/
theorem cleanLines_of_readable {lines : List (List UInt8)}
    (h : ∀ line ∈ lines, ((OscParser.fromUtf8 line).any fun text =>
      ((fromStr text).bind usageEntry).all fun e => e.day.isSome) = true) :
    CleanLines fromStr lines where
  days line hl text e htext hentry := by
    simpa [htext, hentry] using h line hl
  decodes pre line post heq htext := by
    have := h line (by simp [heq])
    rw [htext] at this
    cases this

theorem parseLines_clean {lines : List (List UInt8)} (h : CleanLines fromStr lines)
    (buckets : UsageDays) : parseLines fromStr buckets lines =
      some (buckets.addAll (lines.filterMap (countedLine fromStr))) := by
  induction lines generalizing buckets with
  | nil => rfl
  | cons line lines ih =>
    rw [parseLines]
    rcases htext : OscParser.fromUtf8 line with _ | text
    · have hnone : (line :: lines).filterMap (countedLine fromStr) = [] := by
        refine List.filterMap_eq_nil_iff.2 fun l hl => ?_
        rcases List.mem_cons.1 hl with rfl | hl
        · simp [countedLine, htext]
        · exact h.decodes [] line lines rfl htext l hl
      rw [hnone]
      rfl
    · rcases hentry : (fromStr text).bind usageEntry with _ | e
      · have hskip : countedLine fromStr line = none := by simp [countedLine, htext, hentry]
        simp only [hentry]
        rw [ih h.tail, List.filterMap_cons_none hskip]
      · obtain ⟨day, hday⟩ := Option.isSome_iff_exists.1
          (h.days line List.mem_cons_self text e htext hentry)
        have hline : countedLine fromStr line =
            some (usageKey day e.cwd e.family, e.tokens) := by
          simp [countedLine, htext, hentry, hday]
        simp only [hentry, hday]
        rw [ih h.tail, List.filterMap_cons_some hline]
        rfl

/-- A clean file's sums are those of its lines. -/
theorem parseSessionFile_clean {contents : Option (List UInt8)}
    (h : CleanLines fromStr (fileLines contents)) :
    parseSessionFile fromStr contents = some (collect (countedLines fromStr contents)) := by
  rcases contents with _ | bytes
  · rfl
  · exact parseLines_clean h .empty

end Counted

/-! ## The rows that a scan leaves -/

section Rows

variable (fromStr : String → Option Json)

/-- The row that a clean file should have. -/
def rowOf (f : SessionFile) : FileRow :=
  ⟨f.path, f.stamp, collect (countedLines fromStr f.contents)⟩

/-- The row was parsed from the file. -/
def MadeFrom (f : SessionFile) (row : FileRow) : Prop :=
  f.path = row.path ∧ f.stamp = row.stamp ∧ parseSessionFile fromStr f.contents = some row.days

variable {fromStr}

theorem scanFile_rows {st st' : ScanLoop} {f : SessionFile}
    (h : scanFile fromStr st f = some st') :
    ∀ row ∈ st'.files.rows, row ∈ st.files.rows ∨ MadeFrom fromStr f row := by
  intro row hrow
  unfold scanFile at h
  simp only at h
  split at h
  · obtain rfl := Option.some.inj h
    exact .inl hrow
  · obtain ⟨days, hdays, rfl⟩ := Option.map_eq_some_iff.1 h
    rcases List.mem_cons.1 hrow with rfl | hrow
    · exact .inr ⟨rfl, rfl, hdays⟩
    · exact .inl (List.mem_of_mem_filter hrow)

theorem scanFiles_rows {fs : List SessionFile} {st st' : ScanLoop}
    (h : scanFiles fromStr st fs = some st') :
    ∀ row ∈ st'.files.rows, row ∈ st.files.rows ∨ ∃ f ∈ fs, MadeFrom fromStr f row := by
  induction fs generalizing st with
  | nil =>
    obtain rfl := Option.some.inj h
    exact fun _ hrow => .inl hrow
  | cons f fs ih =>
    obtain ⟨st1, h1, h⟩ := Option.bind_eq_some_iff.1 h
    intro row hrow
    rcases ih h row hrow with hrow | ⟨g, hg, hmade⟩
    · rcases scanFile_rows h1 row hrow with hrow | hmade
      · exact .inl hrow
      · exact .inr ⟨f, List.mem_cons_self, hmade⟩
    · exact .inr ⟨g, List.mem_cons_of_mem _ hg, hmade⟩

/-- The row there is for the file, if it has its stamp, is the one it should have. -/
def Honest (fromStr : String → Option Json) (files : CacheFiles) (f : SessionFile) : Prop :=
  ∀ row, files.lookup f.path = some row → row.stamp = f.stamp → row = rowOf fromStr f

theorem scanFile_clean {st : ScanLoop} {f : SessionFile}
    (hc : CleanLines fromStr (fileLines f.contents)) (hh : Honest fromStr st.files f) :
    ∃ st', scanFile fromStr st f = some st' ∧ st'.seen = f.path :: st.seen ∧
      st'.files.lookup f.path = some (rowOf fromStr f) ∧
      ∀ k ≠ f.path, st'.files.lookup k = st.files.lookup k := by
  unfold scanFile
  simp only [parseSessionFile_clean hc, Option.map_some]
  by_cases hu : ((st.files.lookup f.path).any fun c => c.stamp == f.stamp) = true
  · rw [if_pos hu]
    obtain ⟨row, hrow, hs⟩ := Option.any_eq_true _ _ |>.1 hu
    refine ⟨_, rfl, rfl, ?_, fun _ _ => rfl⟩
    rw [← hh row hrow (beq_iff_eq.1 hs)]
    exact hrow
  · rw [if_neg hu]
    refine ⟨_, rfl, rfl, ?_, fun k hk => ?_⟩
    · exact KeyedTable.lookup_upsert.trans (if_pos rfl)
    · exact KeyedTable.lookup_upsert.trans (if_neg hk)

/-- Of files with distinct paths, each ends with the row it should have. -/
theorem scanFiles_clean {fs : List SessionFile} {st : ScanLoop}
    (hnd : (fs.map SessionFile.path).Nodup)
    (hc : ∀ f ∈ fs, CleanLines fromStr (fileLines f.contents))
    (hh : ∀ f ∈ fs, Honest fromStr st.files f) :
    ∃ st', scanFiles fromStr st fs = some st' ∧
      (∀ k, k ∈ st'.seen ↔ k ∈ st.seen ∨ k ∈ fs.map SessionFile.path) ∧
      (∀ f ∈ fs, st'.files.lookup f.path = some (rowOf fromStr f)) ∧
      ∀ k ∉ fs.map SessionFile.path, st'.files.lookup k = st.files.lookup k := by
  induction fs generalizing st with
  | nil => exact ⟨st, rfl, by simp, nofun, fun _ _ => rfl⟩
  | cons f fs ih =>
    obtain ⟨hf, hnd⟩ := List.nodup_cons.1 hnd
    obtain ⟨st1, h1, hseen1, hrow1, hframe1⟩ :=
      scanFile_clean (hc f List.mem_cons_self) (hh f List.mem_cons_self)
    have hne : ∀ g ∈ fs, g.path ≠ f.path := fun g hg heq =>
      hf (heq ▸ List.mem_map_of_mem hg)
    have hh1 : ∀ g ∈ fs, Honest fromStr st1.files g := fun g hg row hrow hs =>
      hh g (List.mem_cons_of_mem _ hg) row (hframe1 _ (hne g hg) ▸ hrow) hs
    obtain ⟨st', h, hseen, hrows, hframe⟩ :=
      ih hnd (fun g hg => hc g (List.mem_cons_of_mem _ hg)) hh1
    refine ⟨st', ?_, fun k => ?_, fun g hg => ?_, fun k hk => ?_⟩
    · rw [scanFiles, h1]
      exact h
    · rw [hseen, hseen1, List.mem_cons, List.map_cons, List.mem_cons]
      tauto
    · rcases List.mem_cons.1 hg with rfl | hg
      · rw [hframe _ hf, hrow1]
      · exact hrows g hg
    · rw [List.map_cons, List.mem_cons, not_or] at hk
      rw [hframe k hk.2, hframe1 k hk.1]

end Rows

/-! ## The fold over the rows -/

section Tokens

variable {κ : Type*} {p : κ → Prop} [DecidablePred p]

/-- The tokens of buckets. -/
def tokensOf (l : List (κ × Bucket)) : List (κ × Tokens) := l.map fun x => (x.1, x.2.t)

theorem t_sumOn (l : List (κ × Bucket)) : (sumOn p l).t = sumOn p (tokensOf l) := by
  induction l with
  | nil => rfl
  | cons x l ih =>
    rw [sumOn_cons, tokensOf, List.map_cons, sumOn_cons, ← tokensOf, ← ih]
    by_cases h : p x.1
    · rw [if_pos h, if_pos h]
      rfl
    · rw [if_neg h, if_neg h]
      rfl

end Tokens

section Fold

variable {κ : Type*} [LinearOrder κ] (key : UsageKey → κ) (cutoff : Option String)

/-- What a row puts into the buckets. -/
def contributions (row : FileRow) : List (κ × Bucket) :=
  ((keptDays cutoff row).map fun x => (key x.1, Bucket.ofSum (ofLex (ofLex x.1).2).2 x.2)) ++
    (((keptDays cutoff row).map fun x => key x.1).dedup).map fun k => (k, Bucket.oneSession)

theorem foldRow_eq (buckets : Tally κ Bucket) (row : FileRow) :
    foldRow key cutoff buckets row = buckets.addAll (contributions key cutoff row) :=
  (addAll_append _ _ _).symm

theorem foldRows_eq (files : CacheFiles) :
    foldRows key cutoff files = collect (files.rows.flatMap (contributions key cutoff)) := by
  suffices h : ∀ (rows : List FileRow) (t : Tally κ Bucket),
      rows.foldl (foldRow key cutoff) t = t.addAll (rows.flatMap (contributions key cutoff)) from
    h files.rows .empty
  intro rows
  induction rows with
  | nil => exact fun _ => rfl
  | cons row rows ih =>
    intro t
    rw [List.foldl_cons, ih, foldRow_eq, List.flatMap_cons, addAll_append]

theorem mem_contributions_iff {row : FileRow} {k : κ} :
    k ∈ (contributions key cutoff row).map Prod.fst ↔
      ∃ x ∈ row.days.rows, inRange cutoff (ofLex x.1).1 = true ∧ key x.1 = k := by
  have hk : k ∈ (contributions key cutoff row).map Prod.fst ↔
      k ∈ (keptDays cutoff row).map fun x => key x.1 := by
    rw [contributions, List.map_append, List.mem_append, List.map_map, List.map_map]
    refine ⟨fun h => ?_, .inl⟩
    rcases h with h | h
    · exact h
    · obtain ⟨k', hk', rfl⟩ := List.mem_map.1 h
      exact List.mem_dedup.1 hk'
  rw [hk, List.mem_map]
  constructor
  · rintro ⟨x, hx, rfl⟩
    obtain ⟨hx, hr⟩ := List.mem_filter.1 hx
    exact ⟨x, hx, hr, rfl⟩
  · rintro ⟨x, hx, hr, rfl⟩
    exact ⟨x, List.mem_filter.2 ⟨hx, hr⟩, rfl⟩

variable {p : κ → Prop} [DecidablePred p]

/-- A row adds its sums in range, and its session adds no tokens. -/
theorem sumOn_contributions (row : FileRow) :
    sumOn p (tokensOf (contributions key cutoff row)) =
      sumOn (fun k => inRange cutoff (ofLex k).1 = true ∧ p (key k)) row.days.rows := by
  rw [contributions, tokensOf, List.map_append, sumOn_append]
  have hsession : ∀ l : List κ,
      sumOn p ((l.map fun k => (k, Bucket.oneSession)).map fun x => (x.1, x.2.t)) = 0 := by
    intro l
    induction l with
    | nil => rfl
    | cons k l ih =>
      rw [List.map_cons, List.map_cons, sumOn_cons, ih]
      split_ifs <;> rfl
  rw [hsession, add_zero, keptDays]
  induction row.days.rows with
  | nil => rfl
  | cons x rows ih =>
    rw [sumOn_cons, ← ih]
    by_cases hr : inRange cutoff (ofLex x.1).1 = true
    · rw [List.filter_cons_of_pos (by simpa using hr), List.map_cons, List.map_cons, sumOn_cons]
      by_cases hp : p (key x.1)
      · rw [if_pos hp, if_pos ⟨hr, hp⟩]
        rfl
      · rw [if_neg hp, if_neg fun h => hp h.2]
    · rw [List.filter_cons_of_neg (by simpa using hr), if_neg fun h => hr h.1, zero_add]

end Fold

/-! ## A scan of clean files -/

section Scan

variable {fromStr : String → Option Json}

/-- Everything that the lines of the files count. -/
def countedAll (fromStr : String → Option Json) (fs : List SessionFile) :
    List (UsageKey × Tokens) := fs.flatMap fun f => countedLines fromStr f.contents

/-- What is kept of the loop's rows are those of the files, in some order. -/
theorem kept_perm {fs : List SessionFile} {st : ScanLoop}
    (hnd : (fs.map SessionFile.path).Nodup)
    (hseen : ∀ k, k ∈ st.seen ↔ k ∈ fs.map SessionFile.path)
    (hrows : ∀ f ∈ fs, st.files.lookup f.path = some (rowOf fromStr f)) :
    (st.files.keep fun row => st.seen.contains row.path).rows.Perm (fs.map (rowOf fromStr)) := by
  have hnd' : ((fs.map (rowOf fromStr)).map FileRow.path).Nodup := by
    rw [List.map_map]
    exact hnd
  refine (List.perm_ext_iff_of_nodup (List.Nodup.of_map _ (KeyedTable.nodup _))
    (List.Nodup.of_map _ hnd')).2 fun row => ?_
  rw [KeyedTable.keep, List.mem_filter, List.contains_iff_mem, hseen, List.mem_map, List.mem_map]
  constructor
  · rintro ⟨hrow, f, hf, hpath⟩
    have := KeyedTable.mem_rows.1 hrow
    rw [← hpath, hrows f hf] at this
    exact ⟨f, hf, Option.some.inj this⟩
  · rintro ⟨f, hf, rfl⟩
    exact ⟨(KeyedTable.lookup_eq_some.1 (hrows f hf)).1, f, hf, rfl⟩

/-- The folds of the files' own rows. -/
def cleanFold {κ : Type*} [LinearOrder κ] (key : UsageKey → κ) (fromStr : String → Option Json)
    (cutoff : Option String) (fs : List SessionFile) : Tally κ Bucket :=
  collect ((fs.map (rowOf fromStr)).flatMap (contributions key cutoff))

/-- With clean files, whatever rows the cache has for them, as long as they are honest, a scan is
the fold of the files' own rows. -/
theorem scanUsage_clean {dirs : List ProjectDir} (stored : Option ScanCache) (range : String)
    (nowMs : ℤ) (projectsDir : String)
    (hnd : ((sessionFiles dirs).map SessionFile.path).Nodup)
    (hc : ∀ f ∈ sessionFiles dirs, CleanLines fromStr (fileLines f.contents))
    (hh : ∀ f ∈ sessionFiles dirs, Honest fromStr (loadCache stored).files f) :
    ∃ parsed cache, scanUsage fromStr projectsDir (.ok dirs) stored range nowMs = some (.ok
      (⟨(cleanFold dayKey fromStr (rangeCutoffDay range nowMs) (sessionFiles dirs)).rows.map
          dayUsage,
        (cleanFold familyKey fromStr (rangeCutoffDay range nowMs) (sessionFiles dirs)).rows.map
          familyUsage, parsed⟩, cache)) := by
  obtain ⟨st, hst, hseen, hrows, -⟩ :=
    @scanFiles_clean fromStr _ ⟨(loadCache stored).files, [], 0⟩ hnd hc hh
  have hperm := kept_perm hnd (fun k => (hseen k).trans (by simp)) hrows
  refine ⟨st.parsedFiles, ⟨(loadCache stored).version,
    st.files.keep fun row => st.seen.contains row.path⟩, ?_⟩
  unfold scanUsage
  simp only [hst, Option.bind_eq_bind, Option.bind_some]
  rw [foldRows_eq, foldRows_eq, collect_perm (hperm.flatMap_right _),
    collect_perm (hperm.flatMap_right _)]
  rfl

section Sums

variable {κ : Type*} [LinearOrder κ] {key : UsageKey → κ} {cutoff : Option String}
  {fs : List SessionFile}

/-- The sums are over the lines of all files. -/
theorem sumOn_cleanFold (p : κ → Prop) [DecidablePred p] :
    sumOn p (tokensOf (cleanFold key fromStr cutoff fs).rows) =
      sumOn (fun k => inRange cutoff (ofLex k).1 = true ∧ p (key k)) (countedAll fromStr fs) := by
  rw [← t_sumOn, cleanFold, sumOn_collect, t_sumOn, countedAll]
  induction fs with
  | nil => rfl
  | cons f fs ih =>
    rw [List.map_cons, List.flatMap_cons, tokensOf, List.map_append, sumOn_append, ← tokensOf,
      ← tokensOf, ih, sumOn_contributions, List.flatMap_cons, sumOn_append, rowOf, sumOn_collect]

theorem mem_cleanFold {k : κ} {b : Bucket} (h : (k, b) ∈ (cleanFold key fromStr cutoff fs).rows) :
    b.t = sumOn (fun k' => inRange cutoff (ofLex k').1 = true ∧ key k' = k)
      (countedAll fromStr fs) := by
  rw [← sumOn_cleanFold (fun k' => k' = k), ← t_sumOn, ← eq_sumOn _ h]

theorem exists_cleanFold {k : κ} : k ∈ (cleanFold key fromStr cutoff fs).rows.map Prod.fst ↔
    ∃ x ∈ countedAll fromStr fs, inRange cutoff (ofLex x.1).1 = true ∧ key x.1 = k := by
  rw [cleanFold, mem_keys_collect, List.map_flatMap, List.mem_flatMap]
  constructor
  · rintro ⟨_, hrow, hk⟩
    obtain ⟨f, hf, rfl⟩ := List.mem_map.1 hrow
    obtain ⟨x, hx, hr, hk⟩ := (mem_contributions_iff _ _).1 hk
    obtain ⟨y, hy, hyx⟩ := List.mem_map.1 (mem_keys_collect.1 (List.mem_map_of_mem hx))
    exact ⟨y, List.mem_flatMap.2 ⟨f, hf, hy⟩, hyx ▸ hr, hyx ▸ hk⟩
  · rintro ⟨y, hy, hr, hk⟩
    obtain ⟨f, hf, hy⟩ := List.mem_flatMap.1 hy
    obtain ⟨x, hx, hxy⟩ := List.mem_map.1 (mem_keys_collect.2 (List.mem_map_of_mem hy))
    exact ⟨_, List.mem_map_of_mem hf,
      (mem_contributions_iff _ _).2 ⟨x, hx, hxy ▸ hr, hxy ▸ hk⟩⟩

end Sums

end Scan

/-! ## What a scan should say -/

def DayUsage.tokens (d : DayUsage) : Tokens :=
  ![d.tokensIn, d.tokensOut, d.cacheWrite, d.cacheRead]

def FamilyUsage.tokens (f : FamilyUsage) : Tokens :=
  ![f.tokensIn, f.tokensOut, f.cacheWrite, f.cacheRead]

/-- There is a bucket for each day in range and directory with a line, once, with the sum of all its
lines; and the days and the families add up to the same. -/
structure CountsLines (fromStr : String → Option Json) (fs : List SessionFile)
    (cutoff : Option String) (out : ScanOutcome) : Prop where
  buckets : ∀ day cwd, (∃ d ∈ out.days, d.day = day ∧ d.cwd = cwd) ↔
    ∃ x ∈ countedAll fromStr fs, inRange cutoff (ofLex x.1).1 = true ∧
      dayKey x.1 = toLex (day, cwd)
  sums : ∀ d ∈ out.days, d.tokens =
    sumOn (fun k => inRange cutoff (ofLex k).1 = true ∧ dayKey k = toLex (d.day, d.cwd))
      (countedAll fromStr fs)
  once : (out.days.map fun d => toLex (d.day, d.cwd)).Nodup
  agree : (out.days.map DayUsage.tokens).sum = (out.families.map FamilyUsage.tokens).sum

def ScanResult.totals (r : ScanResult) : Except String (List DayUsage × List FamilyUsage) :=
  r.map fun x => (x.1.days, x.1.families)

/-- A scan returns, with what it returns without a cache, and counts every line of the files. -/
structure ScanExact (fromStr : String → Option Json) (projectsDir : String)
    (projects : Except String (List ProjectDir)) (stored : Option ScanCache) (range : String)
    (nowMs : ℤ) : Prop where
  same : ∃ r r', scanUsage fromStr projectsDir projects stored range nowMs = some r ∧
    scanUsage fromStr projectsDir projects none range nowMs = some r' ∧
    ScanResult.totals r = ScanResult.totals r'
  counts : ∀ dirs, projects = .ok dirs → ∃ out cache,
    scanUsage fromStr projectsDir projects stored range nowMs = some (.ok (out, cache)) ∧
    CountsLines fromStr (sessionFiles dirs) (rangeCutoffDay range nowMs) out

section Outcome

variable {fromStr : String → Option Json} {cutoff : Option String} {fs : List SessionFile}

theorem dayUsage_tokens (x : (String ×ₗ String) × Bucket) : (dayUsage x).tokens = x.2.t := by
  funext i
  match i with
  | 0 => rfl
  | 1 => rfl
  | 2 => rfl
  | 3 => rfl

theorem familyUsage_tokens (x : String × Bucket) : (familyUsage x).tokens = x.2.t := by
  funext i
  match i with
  | 0 => rfl
  | 1 => rfl
  | 2 => rfl
  | 3 => rfl

/-- All buckets together have the sum of all lines in range. -/
theorem sum_cleanFold {κ : Type*} [LinearOrder κ] (key : UsageKey → κ) :
    ((cleanFold key fromStr cutoff fs).rows.map fun x => x.2.t).sum =
      sumOn (fun k => inRange cutoff (ofLex k).1 = true ∧ True) (countedAll fromStr fs) := by
  rw [← sumOn_cleanFold (fun _ : κ => True), sumOn, List.filter_eq_self.2 (by simp), tokensOf,
    List.map_map]
  rfl

theorem countsLines_clean (parsed : ℕ) : CountsLines fromStr fs cutoff
    ⟨(cleanFold dayKey fromStr cutoff fs).rows.map dayUsage,
      (cleanFold familyKey fromStr cutoff fs).rows.map familyUsage, parsed⟩ where
  buckets day cwd := by
    rw [← exists_cleanFold (k := toLex (day, cwd)), List.mem_map]
    constructor
    · rintro ⟨d, hd, rfl, rfl⟩
      obtain ⟨x, hx, rfl⟩ := List.mem_map.1 hd
      exact ⟨x, hx, rfl⟩
    · rintro ⟨x, hx, hk⟩
      refine ⟨dayUsage x, List.mem_map_of_mem hx, ?_, ?_⟩
      · show (ofLex x.1).1 = day
        rw [hk]
        rfl
      · show (ofLex x.1).2 = cwd
        rw [hk]
        rfl
  sums d hd := by
    obtain ⟨x, hx, rfl⟩ := List.mem_map.1 hd
    rw [dayUsage_tokens]
    exact mem_cleanFold hx
  once := by
    rw [List.map_map]
    exact (cleanFold dayKey fromStr cutoff fs).sorted.imp ne_of_lt
  agree := by
    simp only [List.map_map, Function.comp_def, dayUsage_tokens, familyUsage_tokens]
    rw [sum_cleanFold, sum_cleanFold]

end Outcome

/-! ## Runs -/

/-- What becomes of the cache file when a scan saves it. -/
inductive SaveResult
  | written
  | kept
  | garbled
  deriving DecidableEq, Repr

inductive StatsAction
  | change (projects : Except String (List ProjectDir))
  | spoil (found : Option ScanCache)
  | scan (range : String) (nowMs : ℤ) (saved : SaveResult)

structure StatsApp where
  projects : Except String (List ProjectDir)
  /-- The cache file, if it can be read as a cache. -/
  stored : Option ScanCache
  /-- The files as the scans found them; a record of the run, not of the code. -/
  past : List SessionFile

/-- The session files there are. -/
def listed (projects : Except String (List ProjectDir)) : List SessionFile :=
  match projects with
  | .error _ => []
  | .ok dirs => sessionFiles dirs

namespace StatsApp

def start (projects : Except String (List ProjectDir)) : StatsApp := ⟨projects, none, []⟩

section Step

variable (fromStr : String → Option Json) (projectsDir : String)

/-- The cache file after a scan. -/
def save (s : StatsApp) (r : Option ScanResult) (saved : SaveResult) : Option ScanCache :=
  match r with
  | some (.ok (_, cache)) =>
    match saved with
    | .written => some cache
    | .kept => s.stored
    | .garbled => none
  | _ => s.stored

/-- The files change in any way, the cache file becomes unreadable or another version's, or a scan
runs. -/
def step (s : StatsApp) : StatsAction → Option StatsApp
  | .change projects => some { s with projects }
  | .spoil found =>
    if found.all (·.version ≠ cacheVersion) then some { s with stored := found } else none
  | .scan range nowMs saved => some
    { s with
      stored := s.save (scanUsage fromStr projectsDir s.projects s.stored range nowMs) saved
      past := s.past ++ listed s.projects }

end Step

/-- The files are counted right: their paths differ, their lines neither make the parser panic nor
stop early, and none has the modification time and size an earlier scan found it with, but other
contents. -/
structure Sound (fromStr : String → Option Json) (s : StatsApp) : Prop where
  distinct : ((listed s.projects).map SessionFile.path).Nodup
  clean : ∀ f ∈ listed s.projects, CleanLines fromStr (fileLines f.contents)
  stamped : ∀ f ∈ listed s.projects, ∀ g ∈ s.past, g.path = f.path → g.stamp = f.stamp →
    g.contents = f.contents

/-- Every row of the cache was parsed from a file that a scan found. -/
def Inv (fromStr : String → Option Json) (s : StatsApp) : Prop :=
  ∀ row ∈ (loadCache s.stored).files.rows, ∃ f ∈ s.past, MadeFrom fromStr f row

variable {fromStr : String → Option Json} {projectsDir : String} {s t : StatsApp}

theorem rows_scanUsage {range : String} {nowMs : ℤ} {out : ScanOutcome} {cache : ScanCache}
    (h : scanUsage fromStr projectsDir s.projects s.stored range nowMs = some (.ok (out, cache))) :
    ∀ row ∈ cache.files.rows, row ∈ (loadCache s.stored).files.rows ∨
      ∃ f ∈ listed s.projects, MadeFrom fromStr f row := by
  unfold scanUsage at h
  split at h
  · cases h
  · rename_i dirs hdirs
    obtain ⟨st, hst, h⟩ := Option.bind_eq_some_iff.1 h
    obtain ⟨rfl, rfl⟩ := Prod.mk.inj (Except.ok.inj (Option.some.inj h))
    intro row hrow
    rw [hdirs]
    exact scanFiles_rows hst row (List.mem_of_mem_filter hrow)

theorem mem_loadCache {c : ScanCache} {row : FileRow}
    (h : row ∈ (loadCache (some c)).files.rows) : row ∈ c.files.rows := by
  unfold loadCache at h
  simp only at h
  split at h
  · exact h
  · cases h

theorem inv_step (hs : s.Inv fromStr) {a : StatsAction}
    (h : step fromStr projectsDir s a = some t) : t.Inv fromStr := by
  rcases a with projects | found | ⟨range, nowMs, saved⟩
  · obtain rfl := Option.some.inj h
    exact hs
  · obtain ⟨hfound, h⟩ := Option.ite_none_right_eq_some.1 h
    obtain rfl := Option.some.inj h
    have hempty : (loadCache found).files = .empty := by
      rcases found with _ | c
      · rfl
      · exact congrArg ScanCache.files (if_neg (by simpa using hfound))
    intro row hrow
    rw [hempty] at hrow
    cases hrow
  · obtain rfl := Option.some.inj h
    have hold : ∀ row ∈ (loadCache s.stored).files.rows,
        ∃ f ∈ s.past ++ listed s.projects, MadeFrom fromStr f row := fun row hrow => by
      obtain ⟨f, hf, hmade⟩ := hs row hrow
      exact ⟨f, List.mem_append_left _ hf, hmade⟩
    rcases hr : scanUsage fromStr projectsDir s.projects s.stored range nowMs with
      _ | (e | ⟨out, cache⟩)
    · exact hold
    · exact hold
    · rcases saved
      · intro row hrow
        rcases rows_scanUsage hr row (mem_loadCache hrow) with hrow | ⟨f, hf, hmade⟩
        · exact hold row hrow
        · exact ⟨f, List.mem_append_right _ hf, hmade⟩
      · exact hold
      · intro row hrow
        cases hrow

theorem inv_run {projects : Except String (List ProjectDir)} {as : List StatsAction}
    (h : Runs.run (step fromStr projectsDir) (start projects) as = some s) : s.Inv fromStr :=
  Runs.run_keeps (fun _ _ _ hs hstep => inv_step hs hstep) (fun _ hrow => by cases hrow) h

/-- Without other contents under an old stamp, a file's row is the one it should have. -/
theorem Inv.honest (hI : s.Inv fromStr) (hs : s.Sound fromStr) {f : SessionFile}
    (hf : f ∈ listed s.projects) : Honest fromStr (loadCache s.stored).files f := by
  intro row hrow hstamp
  obtain ⟨hrow, hpath⟩ := KeyedTable.lookup_eq_some.1 hrow
  obtain ⟨g, hg, hgpath, hgstamp, hdays⟩ := hI row hrow
  have hcontents := hs.stamped f hf g hg (hgpath.trans hpath) (hgstamp.trans hstamp)
  rw [hcontents, parseSessionFile_clean (hs.clean f hf)] at hdays
  rcases row with ⟨path, stamp, days⟩
  obtain rfl : path = f.path := hpath
  obtain rfl : stamp = f.stamp := hstamp
  rw [rowOf, Option.some.inj hdays]

/-- In every run, whatever is scanned in between and whatever becomes of the cache, each scan of
sound files is exact. -/
theorem scan_exact {projects : Except String (List ProjectDir)} {as : List StatsAction}
    (hr : Runs.run (step fromStr projectsDir) (start projects) as = some s)
    (hs : s.Sound fromStr) (range : String) (nowMs : ℤ) :
    ScanExact fromStr projectsDir s.projects s.stored range nowMs := by
  have hI := inv_run hr
  rcases hp : s.projects with e | dirs
  · exact ⟨⟨_, _, rfl, rfl, rfl⟩, nofun⟩
  have hlisted : listed s.projects = sessionFiles dirs := by rw [hp]; rfl
  have hnd := hlisted ▸ hs.distinct
  have hc := hlisted ▸ hs.clean
  obtain ⟨parsed, cache, hscan⟩ := scanUsage_clean s.stored range nowMs projectsDir
    hnd hc fun f hf => hI.honest hs (hlisted ▸ hf)
  obtain ⟨parsed', cache', hscan'⟩ := scanUsage_clean none range nowMs projectsDir
    hnd hc fun f hf row hrow => by cases hrow
  refine ⟨⟨_, _, hscan, hscan', rfl⟩, fun dirs' hdirs => ?_⟩
  obtain rfl := Except.ok.inj hdirs
  exact ⟨_, _, hscan, countsLines_clean parsed⟩

/-! Two lines of a log, of which one has a timestamp that is no date. -/

def usageLine : String :=
  "\x7b\"message\":\x7b\"usage\":\x7b\"output_tokens\":7\x7d\x7d," ++
    "\"timestamp\":\"2026-07-10T09:00:00Z\"\x7d"

def oddLine : String :=
  "\x7b\"message\":\x7b\"usage\":\x7b\"output_tokens\":7\x7d\x7d," ++
    "\"timestamp\":\"2026-07-1éT09:00:00Z\"\x7d"

def usageJson (timestamp : String) : Json :=
  .object [("message", .object [("usage", .object [("output_tokens", .number (some 7))])]),
    ("timestamp", .string timestamp)]

/-- Reads the two lines. -/
def readsLines (text : String) : Option Json :=
  if text = usageLine then some (usageJson "2026-07-10T09:00:00Z")
  else if text = oddLine then some (usageJson "2026-07-1éT09:00:00Z")
  else none

def oneFile (lines : List String) : Except String (List ProjectDir) :=
  let bytes := lines.flatMap fun line => line.toUTF8.toList ++ [ch '\n']
  .ok [⟨true, some [⟨"/p/a.jsonl", some "jsonl", some ⟨0, bytes.length⟩, some bytes⟩]⟩]

/-- The file grows between two scans. -/
def growingLog : List StatsAction :=
  [.scan "all" 0 .written, .change (oneFile [usageLine, usageLine])]

theorem scan_exact_growingLog : ∃ s,
    Runs.run (step readsLines "/p") (start (oneFile [usageLine])) growingLog = some s ∧
    ScanExact readsLines "/p" s.projects s.stored "7d" 0 := by
  obtain ⟨s, hr, hp, hpast⟩ : ∃ s,
      Runs.run (step readsLines "/p") (start (oneFile [usageLine])) growingLog = some s ∧
      s.projects = oneFile [usageLine, usageLine] ∧
      s.past = listed (oneFile [usageLine]) := ⟨_, rfl, rfl, rfl⟩
  refine ⟨s, hr, scan_exact hr ⟨?_, ?_, ?_⟩ "7d" 0⟩
  · rw [hp]
    exact List.nodup_singleton _
  · rw [hp]
    intro f hf
    obtain rfl := List.mem_singleton.1 hf
    exact cleanLines_of_readable (by decide +kernel)
  · rw [hp, hpast]
    decide +kernel

/-- A timestamp whose tenth byte is within a character makes every scan panic. -/
theorem odd_timestamp_panics : ¬ ∀ fromStr projectsDir projects as s,
    Runs.run (step fromStr projectsDir) (start projects) as = some s →
    (∀ f ∈ listed s.projects, ∀ g ∈ s.past, g.path = f.path → g.stamp = f.stamp →
      g.contents = f.contents) →
    ∀ range nowMs, ScanExact fromStr projectsDir s.projects s.stored range nowMs := by
  intro h
  obtain ⟨⟨r, -, hr, -⟩, -⟩ := h readsLines "/p" (oneFile [oddLine]) [] _ rfl
    (fun _ _ _ hg => absurd hg List.not_mem_nil) "all" 0
  have hnone : (scanUsage readsLines "/p" (oneFile [oddLine]) none "all" 0).isNone := by
    decide +kernel
  have : (some r : Option ScanResult).isNone := hr ▸ hnone
  cases this

end StatsApp

end BuilderPro
