import Mathlib.Data.Int.Notation
import BuilderPro.Lib.KeyedList
import BuilderPro.Lib.Runs

/-!
# The statistics slice

`store.ts`: `refreshStats` scans usage and git output for the range on screen, and a range switch, a
refresh or a cancel while it runs takes a new epoch, so that its answer is discarded.  The spinner
turns exactly while an answer is awaited (`loading_iff`).  At rest the figures are those of the
range on screen, but for a cancel of the first scan of a new range (`labelled_iff`).
-/

namespace BuilderPro

inductive StatsRange
  | all
  | days30
  | days7
  deriving DecidableEq, Repr

/-- What the slice holds, of usage figures `υ` and git figures `γ`. -/
structure StatsSlice (υ γ : Type) where
  range : StatsRange
  usage : Option υ
  git : Option γ
  usageError : Option String
  gitError : Option String
  loading : Bool
  epoch : ℕ
  lastRefreshMs : Option ℤ
  deriving DecidableEq, Repr

/-- A scan that is yet to be answered. -/
structure StatsScan where
  epoch : ℕ
  range : StatsRange
  deriving DecidableEq, Repr

structure StatsStore (υ γ : Type) where
  stats : StatsSlice υ γ
  scans : List StatsScan
  /-- The range of the scan that was taken over last. -/
  shown : Option StatsRange
  deriving DecidableEq, Repr

/-- Either half of an answer may be a rejection. -/
inductive StatsEvent (υ γ : Type)
  | setStatsRange (range : StatsRange)
  | refreshStats
  | cancelStats
  | settle (i : ℕ) (usageRes : Except String υ) (gitRes : Except String γ) (now : ℤ)

namespace StatsStore

variable {υ γ : Type}

def initial : StatsStore υ γ := ⟨⟨.days30, none, none, none, none, false, 0, none⟩, [], none⟩

variable (usageError : υ → Option String) (s : StatsStore υ γ)

/-- `refreshStats`, up to its wait. -/
def startScan : StatsStore υ γ :=
  let myEpoch := s.stats.epoch + 1
  { s with
    stats := { s.stats with epoch := myEpoch, loading := true }
    scans := s.scans ++ [⟨myEpoch, s.stats.range⟩] }

/-- `refreshStats`, once its scan has been answered and is still the latest. -/
def takeOver (scan : StatsScan) (usageRes : Except String υ) (gitRes : Except String γ) (now : ℤ) :
    StatsStore υ γ :=
  { s with
    stats :=
      { s.stats with
        loading := false
        lastRefreshMs := some now
        usage := usageRes.toOption
        usageError := match usageRes with
          | .ok usage => usageError usage
          | .error reason => some reason
        git := gitRes.toOption
        gitError := match gitRes with
          | .ok _ => none
          | .error reason => some reason }
    shown := some scan.range }

/-- The button that cancels is there while the slice is loading. -/
def step : StatsEvent υ γ → Option (StatsStore υ γ)
  | .setStatsRange range => some { s with stats.range := range }.startScan
  | .refreshStats => some s.startScan
  | .cancelStats =>
    if s.stats.loading then
      some { s with stats := { s.stats with epoch := s.stats.epoch + 1, loading := false } }
    else none
  | .settle i usageRes gitRes now =>
    s.scans[i]?.map fun scan =>
      let rest := { s with scans := s.scans.eraseIdx i }
      if s.stats.epoch ≠ scan.epoch then rest
      else rest.takeOver usageError scan usageRes gitRes now

def HasFigures : Prop := s.stats.usage.isSome ∨ s.stats.git.isSome

/-- The figures are those of the range on screen. -/
def FiguresMatch : Prop := s.HasFigures → s.shown = some s.stats.range

/-- At rest, the figures are those of the range on screen. -/
def Labelled : Prop := s.stats.loading = false → s.FiguresMatch

/-- A cancel finds the figures of the range on screen. -/
def CancelMatches : StatsEvent υ γ → Prop
  | .cancelStats => s.FiguresMatch
  | _ => True

/-- The scans have epochs of their own.  The one of the latest is awaited, for the range on
screen. -/
structure Awaits : Prop where
  le : ∀ scan ∈ s.scans, scan.epoch ≤ s.stats.epoch
  nodup : (s.scans.map StatsScan.epoch).Nodup
  latest : ∀ scan ∈ s.scans, scan.epoch = s.stats.epoch →
    s.stats.loading = true ∧ scan.range = s.stats.range
  loading : s.stats.loading = true → ∃ scan ∈ s.scans, scan.epoch = s.stats.epoch

variable {usageError s} {t : StatsStore υ γ} {a : StatsEvent υ γ}

theorem awaits_startScan (h : s.Awaits) (range : StatsRange) :
    ({ s with stats.range := range } : StatsStore υ γ).startScan.Awaits := by
  have hlt : ∀ scan ∈ s.scans, scan.epoch < s.stats.epoch + 1 := fun scan hscan =>
    Nat.lt_succ_of_le (h.le scan hscan)
  refine ⟨?_, ?_, ?_, fun _ => ?_⟩
  · simp only [startScan, List.forall_mem_append, List.forall_mem_singleton]
    exact ⟨fun scan hscan => (hlt scan hscan).le, le_rfl⟩
  · simp only [startScan, List.map_append, List.map_singleton]
    refine List.nodup_append.2 ⟨h.nodup, List.nodup_singleton _, fun e he e' he' => ?_⟩
    obtain ⟨scan, hscan, rfl⟩ := List.mem_map.1 he
    rw [List.mem_singleton.1 he']
    exact (hlt scan hscan).ne
  · simp only [startScan, List.forall_mem_append, List.forall_mem_singleton]
    exact ⟨fun scan hscan he => absurd he (hlt scan hscan).ne, fun _ => ⟨trivial, trivial⟩⟩
  · exact ⟨_, List.mem_append_right _ List.mem_cons_self, rfl⟩

theorem step_awaits (h : s.Awaits) (hstep : s.step usageError a = some t) : t.Awaits := by
  cases a with
  | setStatsRange range =>
    cases hstep
    exact awaits_startScan h range
  | refreshStats =>
    cases hstep
    exact awaits_startScan h s.stats.range
  | cancelStats =>
    simp only [step, Option.ite_none_right_eq_some, Option.some.injEq] at hstep
    obtain ⟨-, rfl⟩ := hstep
    have hlt : ∀ scan ∈ s.scans, scan.epoch < s.stats.epoch + 1 := fun scan hscan =>
      Nat.lt_succ_of_le (h.le scan hscan)
    exact ⟨fun scan hscan => (hlt scan hscan).le, h.nodup,
      fun scan hscan he => absurd he (hlt scan hscan).ne, nofun⟩
  | settle i usageRes gitRes now =>
    simp only [step, Option.map_eq_some_iff] at hstep
    obtain ⟨scan, hi, rfl⟩ := hstep
    have hrest : s.scans.eraseIdx i = s.scans.filter fun other => other.epoch ≠ scan.epoch :=
      KeyedList.eraseIdx_eq_filter h.nodup hi
    have hmem : ∀ other ∈ s.scans.eraseIdx i, other ∈ s.scans ∧ other.epoch ≠ scan.epoch := by
      intro other hother
      simpa [hrest] using hother
    have hnodup := h.nodup.sublist ((List.eraseIdx_sublist s.scans i).map StatsScan.epoch)
    split_ifs with hepoch
    · refine ⟨fun other ho => h.le other (hmem other ho).1, hnodup,
        fun other ho => h.latest other (hmem other ho).1, fun hl => ?_⟩
      obtain ⟨other, ho, he⟩ := h.loading hl
      refine ⟨other, ?_, he⟩
      simp only [hrest, List.mem_filter, decide_eq_true_eq]
      exact ⟨ho, he ▸ hepoch⟩
    · rw [not_not] at hepoch
      exact ⟨fun other ho => h.le other (hmem other ho).1, hnodup,
        fun other ho he => absurd (he.trans hepoch) (hmem other ho).2, nofun⟩

theorem awaits_initial : (initial : StatsStore υ γ).Awaits := by
  refine ⟨?_, List.nodup_nil, ?_, ?_⟩ <;> simp [initial]

/-- Along every run, the slice is loading exactly while the answer to the latest scan is awaited. -/
theorem loading_iff {as : List (StatsEvent υ γ)}
    (h : Runs.run (step usageError) initial as = some s) :
    s.stats.loading = true ↔ ∃ scan ∈ s.scans, scan.epoch = s.stats.epoch := by
  have hs : s.Awaits :=
    Runs.run_keeps (fun _ _ _ hs ht => step_awaits hs ht) awaits_initial h
  exact ⟨hs.loading, fun ⟨scan, hscan, he⟩ => (hs.latest scan hscan he).1⟩

def cancelled : List (StatsEvent ℕ ℕ) := [.refreshStats, .cancelStats]

/-- A cancelled scan is still to be answered, and is not awaited. -/
theorem loading_cancelled : ∃ s : StatsStore ℕ ℕ,
    Runs.run (step fun _ => none) initial cancelled = some s ∧ s.scans = [⟨1, .days30⟩]
      ∧ (s.stats.loading = true ↔ ∃ scan ∈ s.scans, scan.epoch = s.stats.epoch) :=
  ⟨_, rfl, rfl, loading_iff (rfl : Runs.run (step fun _ => none) _ cancelled = some _)⟩

theorem step_labelled_iff (h : s.Awaits) (hp : s.Labelled) (hstep : s.step usageError a = some t) :
    t.Labelled ↔ s.CancelMatches a := by
  cases a with
  | setStatsRange range =>
    cases hstep
    exact iff_of_true nofun trivial
  | refreshStats =>
    cases hstep
    exact iff_of_true nofun trivial
  | cancelStats =>
    simp only [step, Option.ite_none_right_eq_some, Option.some.injEq] at hstep
    obtain ⟨-, rfl⟩ := hstep
    exact ⟨fun ht => ht rfl, fun hs _ => hs⟩
  | settle i usageRes gitRes now =>
    simp only [step, Option.map_eq_some_iff] at hstep
    obtain ⟨scan, hi, rfl⟩ := hstep
    refine iff_of_true ?_ trivial
    split_ifs with hepoch
    · exact hp
    · rw [not_not] at hepoch
      intro _ _
      exact congrArg some (h.latest scan (List.mem_of_getElem? hi) hepoch.symm).2

/-- A run shows figures under the range they were scanned for, whenever it is at rest, exactly if no
cancel comes while other figures are on screen. -/
theorem labelled_iff (as : List (StatsEvent υ γ)) :
    Runs.Throughout (step usageError) Labelled initial as
      ↔ Runs.Along (step usageError) CancelMatches initial as :=
  Runs.throughout_iff (I := Awaits) (fun _ _ _ hs ht => step_awaits hs ht)
    (fun _ _ _ hs hp ht => step_labelled_iff hs hp ht) awaits_initial
    (fun _ hf => absurd hf (by simp [HasFigures, initial])) as

end StatsStore

end BuilderPro
