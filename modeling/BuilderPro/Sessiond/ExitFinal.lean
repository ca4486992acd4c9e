import BuilderPro.Sessiond.SessionThreads

/-!
# Exit is final in the lifecycle

The wait thread records the child's end under one lock after another, next to a reader that may
still have events to process and to heuristics that may still have a result to store.  The record
stands exactly in the runs in which no such late step would change it (`exit_final_iff`).
-/

namespace BuilderPro

namespace WaiterPc

/-- The exit whose lifecycle is written; `waiting` may still be to clear. -/
def lifecycleWritten : WaiterPc → Option ExitRecord
  | .setWaiting x => some x
  | pc => pc.recorded

/-- The exit that has made the session inactive. -/
def inactiveWritten : WaiterPc → Option ExitRecord
  | .setCode x => some x
  | .setSignal x => some x
  | .setLifecycle x => some x
  | pc => pc.lifecycleWritten

theorem lifecycleWritten_of_recorded {pc : WaiterPc} {x : ExitRecord} (h : pc.recorded = some x) :
    pc.lifecycleWritten = some x := by
  cases pc <;> simp_all [recorded, lifecycleWritten]

theorem inactiveWritten_of_recorded {pc : WaiterPc} {x : ExitRecord} (h : pc.recorded = some x) :
    pc.inactiveWritten = some x := by
  cases pc <;> simp_all [recorded, lifecycleWritten, inactiveWritten]

end WaiterPc

namespace Sess

/-- What the wait thread has recorded of the exit stands: the lifecycle from when it is written, the
inactive session and the cleared waiting flag from when the record is complete. -/
structure ExitFinal (s : Sess) : Prop where
  lifecycle : ∀ x, s.waiter.lifecycleWritten = some x → s.shared.lifecycle = x.lifecycle
  waiting : ∀ x, s.waiter.recorded = some x → s.shared.isActive = false ∧ s.shared.waiting = false

/-- A step that a record already written survives: the reader advances the lifecycle by an event
that leaves the recorded one as it is, and what a heuristic stores, it stores as false. -/
def LateSafe (s : Sess) : Act → Prop
  | .reader _ g =>
    match s.reader with
    | .advance ev _ _ => ∀ x, s.waiter.lifecycleWritten = some x →
        advanceLifecycle x.lifecycle ev = x.lifecycle
    | .store running => s.waiter.recorded.isSome → (running && g.all) = false
    | _ => True
  | .ticker g =>
    match s.ticker with
    | .store running => s.waiter.recorded.isSome → (running && g.all) = false
    | _ => True
  | _ => True

/-- Once the wait thread has made the session inactive it stays so. -/
def InactiveKept (s : Sess) : Prop :=
  ∀ x, s.waiter.inactiveWritten = some x → s.shared.isActive = false

/-- A step that leaves the wait thread and the fields of its record alone. -/
structure SameRecord (s t : Sess) : Prop where
  waiter : t.waiter = s.waiter
  lifecycle : t.shared.lifecycle = s.shared.lifecycle
  waiting : t.shared.waiting = s.shared.waiting
  isActive : t.shared.isActive = s.shared.isActive

variable {s t : Sess}

theorem SameRecord.inactiveKept (h : SameRecord s t) (hs : InactiveKept s) : InactiveKept t := by
  intro x hx
  rw [h.isActive]
  exact hs x (h.waiter ▸ hx)

theorem SameRecord.exitFinal (h : SameRecord s t) (hs : ExitFinal s) : ExitFinal t := by
  refine ⟨fun x hx => ?_, fun x hx => ?_⟩
  · rw [h.lifecycle]
    exact hs.lifecycle x (h.waiter ▸ hx)
  · rw [h.isActive, h.waiting]
    exact hs.waiting x (h.waiter ▸ hx)

/-- The creating request leaves the record alone, but for starting the wait thread. -/
theorem createStep_record (h : s.createStep = some t) :
    SameRecord s t ∨ t.waiter = .waiting := by
  unfold createStep at h
  split at h <;> (try split_ifs at h) <;> cases h <;> first
    | exact .inl ⟨rfl, rfl, rfl, rfl⟩
    | exact .inr rfl

theorem flushStep_record (h : s.flushStep = some t) : SameRecord s t := by
  unfold flushStep at h
  split at h <;> cases h <;> exact ⟨rfl, rfl, rfl, rfl⟩

theorem sweepStep_record {i : ℕ} {pc : SweepPc} (h : s.sweepStep i pc = some t) :
    SameRecord s t := by
  unfold sweepStep at h
  split at h <;> (try split_ifs at h) <;> cases h <;> exact ⟨rfl, rfl, rfl, rfl⟩

theorem killStep_record {i : ℕ} {pc : KillPc} (h : s.killStep i pc = some t) :
    SameRecord s t := by
  unfold killStep at h
  split at h <;> (try split at h) <;> cases h <;> exact ⟨rfl, rfl, rfl, rfl⟩

/-- The steps of the three threads that write the record's fields. -/
def writesRecord : Act → Bool
  | .reader _ _ => true
  | .exit _ => true
  | .waiter => true
  | .ticker _ => true
  | _ => false

/-- No other step touches the record, but for the start of the wait thread. -/
theorem step_record {a : Act} (ha : writesRecord a = false) (h : s.step a = some t) :
    SameRecord s t ∨ t.waiter = .waiting := by
  cases a with
  | create => exact createStep_record h
  | read chunk =>
    simp only [step, readStep] at h
    split at h <;> cases h
    exact .inl ⟨rfl, rfl, rfl, rfl⟩
  | eof =>
    simp only [step, eofStep] at h
    split at h <;> cases h
    exact .inl ⟨rfl, rfl, rfl, rfl⟩
  | reader now g => cases ha
  | exit st => cases ha
  | waiter => cases ha
  | ticker g => cases ha
  | flush => exact .inl (flushStep_record h)
  | startSweep =>
    cases h
    exact .inl ⟨rfl, rfl, rfl, rfl⟩
  | sweep i =>
    obtain ⟨pc, -, h⟩ := Option.bind_eq_some_iff.1 h
    exact .inl (sweepStep_record h)
  | startKill =>
    cases h
    exact .inl ⟨rfl, rfl, rfl, rfl⟩
  | kill i =>
    obtain ⟨pc, -, h⟩ := Option.bind_eq_some_iff.1 h
    exact .inl (killStep_record h)

theorem record_waiting (h : t.waiter = .waiting) : InactiveKept t ∧ ExitFinal t := by
  refine ⟨fun x hx => ?_, fun x hx => ?_, fun x hx => ?_⟩ <;> rw [h] at hx <;>
    simp [WaiterPc.inactiveWritten, WaiterPc.lifecycleWritten, WaiterPc.recorded] at hx

/-- The wait thread writes its record in order; then its callback leaves the record alone. -/
theorem waiterStep_cases (h : s.waiterStep = some t) :
    (∃ x, s.waiter = .setInactive x ∧
        t = { s with shared := s.shared.setInactive, waiter := .setCode x }) ∨
      (∃ x, (s.waiter = .setCode x ∨ s.waiter = .setSignal x) ∧
        t.shared.isActive = s.shared.isActive ∧
        (t.waiter = .setSignal x ∨ t.waiter = .setLifecycle x)) ∨
      (∃ x, s.waiter = .setLifecycle x ∧
        t = { s with
          shared := { s.shared with lifecycle := x.lifecycle }
          waiter := .setWaiting x }) ∨
      (∃ x, s.waiter = .setWaiting x ∧
        t = { s with shared := { s.shared with waiting := false }, waiter := .getMeta x }) ∨
      ∃ x, s.waiter.recorded = some x ∧ t.waiter.recorded = some x ∧
        t.waiter.lifecycleWritten = some x ∧ t.shared.lifecycle = s.shared.lifecycle ∧
        t.shared.waiting = s.shared.waiting ∧ t.shared.isActive = s.shared.isActive := by
  unfold waiterStep at h
  split at h
  case h_1 x hw =>
    cases h
    exact .inl ⟨x, hw, rfl⟩
  case h_2 x hw =>
    cases h
    exact .inr (.inl ⟨x, .inl hw, rfl, .inl rfl⟩)
  case h_3 x hw =>
    cases h
    exact .inr (.inl ⟨x, .inr hw, rfl, .inr rfl⟩)
  case h_4 x hw =>
    cases h
    exact .inr (.inr (.inl ⟨x, hw, rfl⟩))
  case h_5 x hw =>
    cases h
    exact .inr (.inr (.inr (.inl ⟨x, hw, rfl⟩)))
  case h_6 x hw =>
    split_ifs at h <;> cases h <;>
      exact .inr (.inr (.inr (.inr ⟨x, by rw [hw]; rfl, rfl, rfl, rfl, rfl, rfl⟩)))
  case h_7 x m hw =>
    cases h
    exact .inr (.inr (.inr (.inr ⟨x, by rw [hw]; rfl, rfl, rfl, rfl, rfl, rfl⟩)))
  case h_8 x m hw =>
    cases h
    exact .inr (.inr (.inr (.inr ⟨x, by rw [hw]; rfl, rfl, rfl, rfl, rfl, rfl⟩)))
  case h_9 x m b hw =>
    split_ifs at h <;> cases h <;>
      exact .inr (.inr (.inr (.inr ⟨x, by rw [hw]; rfl, rfl, rfl, rfl, rfl, rfl⟩)))
  case h_10 x m b evs hw =>
    cases h
    exact .inr (.inr (.inr (.inr ⟨x, by rw [hw]; rfl, rfl, rfl, rfl, rfl, rfl⟩)))
  case h_11 => cases h

theorem inactiveKept_waiterStep (hs : InactiveKept s) (h : s.waiterStep = some t) :
    InactiveKept t := by
  rcases waiterStep_cases h with ⟨x, -, rfl⟩ | ⟨x, hw, hact, hw'⟩ | ⟨x, hw, rfl⟩ | ⟨x, hw, rfl⟩ |
    ⟨x, hw, hw', -, -, -, hact⟩
  · exact fun _ _ => rfl
  · rintro y -
    rw [hact]
    refine hs x ?_
    rcases hw with hw | hw <;> rw [hw] <;> rfl
  · exact fun _ _ => hs x (by rw [hw]; rfl)
  · exact fun _ _ => hs x (by rw [hw]; rfl)
  · rintro y -
    rw [hact]
    exact hs x (WaiterPc.inactiveWritten_of_recorded hw)

/-- The exit alone records nothing yet. -/
theorem exitStep_fresh {st : ExitStatus} (h : s.exitStep st = some t) :
    t.waiter.inactiveWritten = none ∧ t.waiter.lifecycleWritten = none ∧
      t.waiter.recorded = none := by
  unfold exitStep at h
  split at h <;> cases h
  exact ⟨rfl, rfl, rfl⟩

theorem inactiveKept_step (s : Sess) (a : Act) (t : Sess) (hs : InactiveKept s)
    (h : s.step a = some t) : InactiveKept t := by
  by_cases ha : writesRecord a
  · cases a with
    | reader now g =>
      simp only [step, readerStep] at h
      split at h <;> cases h
      case h_2 ev _ _ _ => cases ev <;> exact hs
      case h_6 => exact fun _ _ => rfl
      all_goals exact hs
    | exit st =>
      intro x hx
      rw [(exitStep_fresh h).1] at hx
      cases hx
    | waiter => exact inactiveKept_waiterStep hs h
    | ticker g =>
      simp only [step, tickerStep] at h
      split at h <;> cases h <;> exact hs
    | _ => cases ha
  · rcases step_record (by simpa using ha) h with hr | hr
    · exact hr.inactiveKept hs
    · exact (record_waiting hr).1

/-! ## Which steps leave the record standing -/

/-- A stored heuristic leaves the record standing exactly when it is false or nothing is
recorded. -/
theorem exitFinal_store (hs : ExitFinal s) (running : Bool) (g : Signals) (rd : ReaderPc)
    (tk : TickerPc) :
    ExitFinal { s with shared := s.shared.storeWaiting running g, reader := rd, ticker := tk } ↔
      (s.waiter.recorded.isSome → (running && g.all) = false) := by
  constructor
  · intro ht hrec
    obtain ⟨x, hx⟩ := Option.isSome_iff_exists.1 hrec
    exact (ht.waiting x hx).2
  · exact fun h => ⟨hs.lifecycle,
      fun x hx => ⟨(hs.waiting x hx).1, h (Option.isSome_of_eq_some hx)⟩⟩

/-- An event leaves the record standing exactly when it leaves the recorded lifecycle as it is. -/
theorem exitFinal_advance (hs : ExitFinal s) (ev : OscEvent) (rd : ReaderPc) :
    ExitFinal { s with shared := s.shared.advance ev, reader := rd } ↔
      ∀ x, s.waiter.lifecycleWritten = some x →
        advanceLifecycle x.lifecycle ev = x.lifecycle := by
  constructor
  · intro ht x hx
    have hl : advanceLifecycle s.shared.lifecycle ev = x.lifecycle := ht.lifecycle x hx
    rwa [hs.lifecycle x hx] at hl
  · refine fun h => ⟨fun x hx => ?_, hs.waiting⟩
    calc advanceLifecycle s.shared.lifecycle ev
        = advanceLifecycle x.lifecycle ev := by rw [hs.lifecycle x hx]
      _ = x.lifecycle := h x hx

theorem exitFinal_waiterStep (hi : InactiveKept s) (hs : ExitFinal s) (h : s.waiterStep = some t) :
    ExitFinal t := by
  rcases waiterStep_cases h with ⟨x, -, rfl⟩ | ⟨x, -, -, hw'⟩ | ⟨x, hw, rfl⟩ | ⟨x, hw, rfl⟩ |
    ⟨x, hw, hw', hl', hl, hwt, hact⟩
  · refine ⟨fun y hy => ?_, fun y hy => ?_⟩ <;>
      simp [WaiterPc.lifecycleWritten, WaiterPc.recorded] at hy
  · refine ⟨fun y hy => ?_, fun y hy => ?_⟩ <;> rcases hw' with hw' | hw' <;> rw [hw'] at hy <;>
      simp [WaiterPc.lifecycleWritten, WaiterPc.recorded] at hy
  · refine ⟨fun y hy => ?_, fun y hy => ?_⟩
    · simp only [WaiterPc.lifecycleWritten, Option.some.injEq] at hy
      rw [hy]
    · simp [WaiterPc.recorded] at hy
  · have hx : s.waiter.lifecycleWritten = some x := by rw [hw]; rfl
    refine ⟨fun y hy => ?_, fun y _ => ⟨?_, rfl⟩⟩
    · obtain rfl : x = y := by simpa [WaiterPc.lifecycleWritten, WaiterPc.recorded] using hy
      exact hs.lifecycle x hx
    · exact hi x (by rw [hw]; rfl)
  · refine ⟨fun y hy => ?_, fun y hy => ?_⟩
    · rw [hl'] at hy
      rw [hl]
      exact hs.lifecycle y (WaiterPc.lifecycleWritten_of_recorded (hw.trans hy))
    · rw [hw'] at hy
      rw [hwt, hact]
      exact hs.waiting y (hw.trans hy)

theorem record_sameRecord (sh : Shared) (ev : OscEvent) (now : Int) :
    (sh.record ev now).lifecycle = sh.lifecycle ∧ (sh.record ev now).waiting = sh.waiting ∧
      (sh.record ev now).isActive = sh.isActive := by
  cases ev <;> exact ⟨rfl, rfl, rfl⟩

theorem exitFinal_readerStep (hs : ExitFinal s) {now : Int} {g : Signals}
    (h : s.readerStep now g = some t) : ExitFinal t ↔ LateSafe s (.reader now g) := by
  unfold readerStep at h
  split at h
  case h_1 ev evs chunk hr =>
    cases h
    simp only [LateSafe, hr]
    exact exitFinal_advance hs ev _
  case h_2 ev evs chunk hr =>
    cases h
    obtain ⟨hl, hw, ha⟩ := record_sameRecord s.shared ev now
    simp only [LateSafe, hr, iff_true]
    exact SameRecord.exitFinal (s := s) ⟨rfl, hl, hw, ha⟩ hs
  case h_3 chunk dirty hr =>
    cases h
    simp only [LateSafe, hr, iff_true]
    exact SameRecord.exitFinal (s := s) ⟨rfl, rfl, rfl, rfl⟩ hs
  case h_4 hr =>
    cases h
    simp only [LateSafe, hr, iff_true]
    exact SameRecord.exitFinal (s := s) ⟨rfl, rfl, rfl, rfl⟩ hs
  case h_5 running hr =>
    cases h
    simp only [LateSafe, hr]
    exact exitFinal_store hs running g _ _
  case h_6 hr =>
    cases h
    simp only [LateSafe, hr, iff_true]
    exact ⟨hs.lifecycle, fun x hx => ⟨rfl, (hs.waiting x hx).2⟩⟩
  case h_7 => cases h

theorem exitFinal_tickerStep (hs : ExitFinal s) {g : Signals} (h : s.tickerStep g = some t) :
    ExitFinal t ↔ LateSafe s (.ticker g) := by
  unfold tickerStep at h
  split at h
  case h_4 running hr =>
    cases h
    simp only [LateSafe, hr]
    exact exitFinal_store hs running g _ _
  case h_5 => cases h
  all_goals
    rename_i hr
    cases h
    simp only [LateSafe, hr, iff_true]
    exact SameRecord.exitFinal (s := s) ⟨rfl, rfl, rfl, rfl⟩ hs

/-- A step leaves the record standing exactly when it is a safe one. -/
theorem exitFinal_step (s : Sess) (a : Act) (t : Sess) (hi : InactiveKept s) (hs : ExitFinal s)
    (h : s.step a = some t) : ExitFinal t ↔ LateSafe s a := by
  by_cases ha : writesRecord a
  · cases a with
    | reader now g => exact exitFinal_readerStep hs h
    | exit st =>
      obtain ⟨-, hl, hr⟩ := exitStep_fresh h
      refine iff_of_true ⟨fun x hx => ?_, fun x hx => ?_⟩ trivial
      · rw [hl] at hx
        cases hx
      · rw [hr] at hx
        cases hx
    | waiter => exact iff_of_true (exitFinal_waiterStep hi hs h) trivial
    | ticker g => exact exitFinal_tickerStep hs h
    | _ => cases ha
  · have hfin : ExitFinal t := by
      rcases step_record (by simpa using ha) h with hr | hr
      · exact hr.exitFinal hs
      · exact (record_waiting hr).2
    refine iff_of_true hfin ?_
    cases a <;> trivial

/-- The exit record stands throughout a run exactly when every step of the run is a safe one. -/
theorem exit_final_iff (shared : Shared) (as : List Act) :
    Runs.Throughout step ExitFinal (init shared) as ↔ Runs.Along step LateSafe (init shared) as :=
  Runs.throughout_iff inactiveKept_step exitFinal_step
    (fun x hx => by simp [init, WaiterPc.inactiveWritten, WaiterPc.lifecycleWritten,
      WaiterPc.recorded] at hx)
    ⟨fun x hx => by simp [init, WaiterPc.lifecycleWritten, WaiterPc.recorded] at hx,
      fun x hx => by simp [init, WaiterPc.recorded] at hx⟩ as

/-- A prompt mark still in the PTY when the child is reaped: the reader takes the recorded exit back
to the prompt. -/
theorem late_prompt_unfinal : ¬ ∀ (shared : Shared) (as : List Act),
    Runs.Throughout step ExitFinal (init shared) as := by
  intro h
  let shared := freshShared "s" "w" "zsh" "/bin/zsh" "/" 80 24 0
  let g : Signals := ⟨false, false, false, false⟩
  let as : List Act := [.create, .create,
    .read [esc, ch ']', ch '1', ch '3', ch '3', ch ';', ch 'A', bel], .exit (.exited 0),
    .waiter, .waiter, .waiter, .waiter, .waiter, .reader 0 g]
  have hlast : (run (init shared) as).map (fun t => (t.waiter.recorded, t.shared.lifecycle)) =
      some (some ⟨some 0, none⟩, .atPrompt) := by decide
  obtain ⟨t, ht, hwl⟩ := Option.map_eq_some_iff.1 hlast
  obtain ⟨hw, hl⟩ := Prod.mk.inj hwl
  have hfin := (Runs.Throughout.last (h shared as) ht).lifecycle _
    (WaiterPc.lifecycleWritten_of_recorded hw)
  rw [hl] at hfin
  cases hfin

end Sess

end BuilderPro
