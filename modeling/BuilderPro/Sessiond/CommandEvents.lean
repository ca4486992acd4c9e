import BuilderPro.Sessiond.SessionThreads
import Mathlib.Data.List.Count
import Mathlib.Data.List.Nodup

/-!
# Where the command events are

Every command event the reader has pushed is stored, held by a thread that will store it, or pending,
and only once (`Sess.EventsInv`).
-/

namespace BuilderPro

namespace SessionRows

/-- The lifecycle the session row holds. -/
def lifecycle (db : SessionRows) : Option SessionLifecycle := db.session.map (·.lifecycle)

end SessionRows

def SweepPc.held : SweepPc → List CommandEvent
  | .events evs => evs
  | _ => []

def WaiterPc.held : WaiterPc → List CommandEvent
  | .spawn _ _ _ evs => evs
  | _ => []

def FlushPc.held : FlushPc → List CommandEvent
  | .persist _ _ _ evs => evs
  | .scrollback _ _ evs => evs
  | .events _ evs => evs
  | _ => []

namespace Sess

def sweepsHeld (s : Sess) : List CommandEvent := s.sweeps.flatMap SweepPc.held

/-- Every event the reader has pushed is in the table, held on its way to it, or pending, once. -/
structure EventsInv (s : Sess) : Prop where
  noKills : s.kills = []
  start : s.creator = .spawnReader ∨ s.creator = .spawnWaiter → s.waiter = .notStarted
  idle : s.flush ≠ .idle → ∃ x, s.waiter = .done x
  seqs : s.emitted.map (·.seq) = List.range s.shared.commandSeq
  accounted : ∀ ev, s.emitted.count ev = s.rows.commandEvents.count ev + s.sweepsHeld.count ev +
    s.waiter.held.count ev + s.flush.held.count ev + s.shared.pendingCommandEvents.count ev

variable {s t : Sess}

/-- A sweep's move changes what the sweeps hold by what it held and holds. -/
theorem count_set_held {l : List SweepPc} {i : ℕ} {pc : SweepPc} (h : l[i]? = some pc)
    (pc' : SweepPc) (ev : CommandEvent) :
    ((l.set i pc').flatMap SweepPc.held).count ev + pc.held.count ev =
      (l.flatMap SweepPc.held).count ev + pc'.held.count ev := by
  induction l generalizing i with
  | nil => simp at h
  | cons q l ih =>
    cases i with
    | zero =>
      obtain rfl : q = pc := by simpa using h
      simp only [List.set_cons_zero, List.flatMap_cons, List.count_append]
      omega
    | succ i =>
      have := ih (i := i) (by simpa using h)
      simp only [List.set_cons_succ, List.flatMap_cons, List.count_append]
      omega

theorem EventsInv.nodup (hs : EventsInv s) : (s.emitted.map (·.seq)).Nodup := by
  rw [hs.seqs]
  exact List.nodup_range

/-- Two events of the run with one sequence number are one event. -/
theorem EventsInv.eq_of_seq (hs : EventsInv s) {e f : CommandEvent} (he : e ∈ s.emitted)
    (hf : f ∈ s.emitted) (h : e.seq = f.seq) : e = f :=
  List.inj_on_of_nodup_map hs.nodup he hf h

theorem EventsInv.count_le (hs : EventsInv s) (ev : CommandEvent) : s.emitted.count ev ≤ 1 :=
  List.nodup_iff_count_le_one.1 hs.nodup.of_map ev

/-- Events on their way to the table are new to it. -/
theorem EventsInv.append (hs : EventsInv s) (evs : List CommandEvent)
    (hheld : ∀ ev, s.rows.commandEvents.count ev + evs.count ev ≤ s.emitted.count ev) :
    s.rows.appendCommandEvents evs =
      { s.rows with commandEvents := s.rows.commandEvents ++ evs } := by
  have hmem : ∀ e ∈ evs, e ∈ s.emitted := fun e he => by
    have := hheld e
    have := List.count_pos_iff.2 he
    exact List.count_pos_iff.1 (by omega)
  have hrow : ∀ e ∈ s.rows.commandEvents, e ∈ s.emitted := fun e he => by
    have := hheld e
    have := List.count_pos_iff.2 he
    exact List.count_pos_iff.1 (by omega)
  refine SessionRows.appendCommandEvents_fresh (fun e he r hr hseq => ?_) ?_
  · obtain rfl := hs.eq_of_seq (hrow r hr) (hmem e he) hseq
    have h1 := List.count_pos_iff.2 hr
    have h2 := List.count_pos_iff.2 he
    have h3 := hheld r
    have h4 := hs.count_le r
    omega
  · refine List.Nodup.map_on (fun e he f hf h => hs.eq_of_seq (hmem e he) (hmem f hf) h) ?_
    exact List.nodup_iff_count_le_one.2 fun e => by
      have h3 := hheld e
      have h4 := hs.count_le e
      omega

/-- A step that leaves the events and what they wait for alone. -/
structure SameEvents (s t : Sess) : Prop where
  kills : t.kills = s.kills
  creator : t.creator = s.creator
  waiter : t.waiter = s.waiter
  flush : t.flush = s.flush
  emitted : t.emitted = s.emitted
  seq : t.shared.commandSeq = s.shared.commandSeq
  pending : t.shared.pendingCommandEvents = s.shared.pendingCommandEvents
  stored : t.rows.commandEvents = s.rows.commandEvents
  held : t.sweepsHeld = s.sweepsHeld

theorem SameEvents.inv (h : SameEvents s t) (hs : EventsInv s) : EventsInv t := by
  constructor
  · rw [h.kills]; exact hs.noKills
  · rw [h.creator, h.waiter]; exact hs.start
  · rw [h.flush, h.waiter]; exact hs.idle
  · rw [h.emitted, h.seq]; exact hs.seqs
  · rw [h.emitted, h.stored, h.held, h.waiter, h.flush, h.pending]; exact hs.accounted

theorem eventsInv_createStep (hs : EventsInv s) (h : s.createStep = some t) : EventsInv t := by
  unfold createStep at h
  split at h
  case h_2 hc =>
    cases h
    have hw := hs.start (.inr hc)
    have hf : s.flush = .idle := by
      by_contra hne
      obtain ⟨x, hx⟩ := hs.idle hne
      rw [hw] at hx
      cases hx
    refine ⟨hs.noKills, by simp, fun hne => absurd hf hne, hs.seqs, fun ev => ?_⟩
    have := hs.accounted ev
    rw [hw] at this
    exact this
  case h_1 hc =>
    cases h
    exact ⟨hs.noKills, fun _ => hs.start (.inl hc), hs.idle, hs.seqs, hs.accounted⟩
  case h_12 => cases h
  case h_13 => cases h
  all_goals
    (try split_ifs at h) <;> cases h <;>
      exact ⟨hs.noKills, by simp, hs.idle, hs.seqs, hs.accounted⟩

theorem record_events (sh : Shared) (ev : OscEvent) (now : Int) :
    (sh.record ev now).pendingCommandEvents
        = sh.pendingCommandEvents ++ (sh.commandEvent ev now).toList ∧
      (sh.record ev now).commandSeq = sh.commandSeq + (sh.commandEvent ev now).toList.length ∧
      ∀ e ∈ sh.commandEvent ev now, e.seq = sh.commandSeq := by
  cases ev <;> simp [Shared.record, Shared.commandEvent, Shared.pushCommandEvent]

/-- The reader numbers its events in order. -/
theorem eventsInv_record (hs : EventsInv s) (ev : OscEvent) (now : Int) (rd : ReaderPc) :
    EventsInv { s with
      shared := s.shared.record ev now
      emitted := s.emitted ++ (s.shared.commandEvent ev now).toList
      reader := rd } := by
  obtain ⟨hp, hn, hseq⟩ := record_events s.shared ev now
  refine ⟨hs.noKills, hs.start, hs.idle, ?_, fun e => ?_⟩
  · rcases hev : s.shared.commandEvent ev now with _ | e
    · rw [hev] at hn
      simpa [hn] using hs.seqs
    · rw [hev] at hn hseq
      simp [hn, hs.seqs, hseq e rfl, List.range_succ]
  · have := hs.accounted e
    simp only [hp, List.count_append, sweepsHeld] at this ⊢
    omega

theorem eventsInv_readerStep (hs : EventsInv s) {now : Int} {g : Signals}
    (h : s.readerStep now g = some t) : EventsInv t := by
  unfold readerStep at h
  split at h
  case h_2 ev evs chunk hr =>
    cases h
    exact eventsInv_record hs ev now _
  case h_7 => cases h
  all_goals
    cases h
    exact SameEvents.inv (s := s) ⟨rfl, rfl, rfl, rfl, rfl, rfl, rfl, rfl, rfl⟩ hs

theorem eventsInv_waiterStep (hs : EventsInv s) (h : s.waiterStep = some t) : EventsInv t := by
  have hst : s.waiter ≠ .notStarted → ¬ (s.creator = .spawnReader ∨ s.creator = .spawnWaiter) :=
    fun hw hc => hw (hs.start hc)
  have hidle : (∀ x, s.waiter ≠ .done x) → s.flush = .idle := fun hd => by
    by_contra hne
    obtain ⟨x, hx⟩ := hs.idle hne
    exact hd x hx
  -- but for the drain and the spawn, the wait thread holds no events before or after its step
  have hmove : ∀ sh w, s.waiter ≠ .notStarted → (∀ x, s.waiter ≠ .done x) →
      s.waiter.held = [] → WaiterPc.held w = [] → sh.commandSeq = s.shared.commandSeq →
      sh.pendingCommandEvents = s.shared.pendingCommandEvents →
      EventsInv { s with shared := sh, waiter := w } := by
    intro sh w hn hd hh hh' hseq hpend
    refine ⟨hs.noKills, fun hc => absurd hc (hst hn), fun hne => absurd (hidle hd) hne, ?_,
      fun ev => ?_⟩
    · rw [hseq]
      exact hs.seqs
    · have := hs.accounted ev
      rw [hh] at this
      rw [hh', hpend]
      exact this
  unfold waiterStep at h
  split at h
  case h_9 x m b hw =>
    split_ifs at h
    · cases h
      refine ⟨hs.noKills, fun hc => absurd hc (hst (by simp [hw])), fun hne => ?_, hs.seqs,
        fun ev => ?_⟩
      · exact absurd (hidle (by simp [hw])) hne
      · have := hs.accounted ev
        simp only [hw, WaiterPc.held, Shared.drainCommandEvents, List.count_nil, sweepsHeld]
          at this ⊢
        omega
    · cases h
      exact hmove _ _ (by simp [hw]) (by simp [hw]) (by simp [hw, WaiterPc.held]) rfl rfl rfl
  case h_10 x m b evs hw =>
    cases h
    have hf := hidle (by simp [hw])
    refine ⟨hs.noKills, fun hc => absurd hc (hst (by simp [hw])), fun _ => ⟨x, rfl⟩, hs.seqs,
      fun ev => ?_⟩
    have := hs.accounted ev
    simp only [hw, hf, WaiterPc.held, FlushPc.held, List.count_nil, sweepsHeld] at this ⊢
    omega
  case h_11 => cases h
  all_goals
    rename_i hw
    (try split_ifs at h) <;> cases h <;>
      exact hmove _ _ (by simp [hw]) (by simp [hw]) (by simp [hw, WaiterPc.held]) rfl rfl rfl

theorem eventsInv_flushStep (hs : EventsInv s) (h : s.flushStep = some t) : EventsInv t := by
  have hdone : s.flush ≠ .idle → ∃ x, s.waiter = .done x := hs.idle
  unfold flushStep at h
  split at h
  case h_4 x evs hf =>
    cases h
    have hrows := hs.append evs fun ev => by
      have := hs.accounted ev
      simp only [hf, FlushPc.held] at this
      omega
    refine ⟨hs.noKills, hs.start, fun _ => hdone (by simp [hf]), hs.seqs, fun ev => ?_⟩
    have := hs.accounted ev
    simp only [hf, hrows, FlushPc.held, List.count_append, List.count_nil, sweepsHeld] at this ⊢
    omega
  case h_6 => cases h
  all_goals
    rename_i hf
    cases h
    refine ⟨hs.noKills, hs.start, fun _ => hdone (by simp [hf]), hs.seqs, fun ev => ?_⟩
    have := hs.accounted ev
    simp only [hf, FlushPc.held] at this
    exact this

theorem eventsInv_sweepStep (hs : EventsInv s) {i : ℕ} {pc : SweepPc} (hpc : s.sweeps[i]? = some pc)
    (h : s.sweepStep i pc = some t) : EventsInv t := by
  -- but for the drain and the write of the events, a sweep holds none before or after its step
  have hmove : ∀ pc' rows, pc.held = [] → SweepPc.held pc' = [] →
      rows.commandEvents = s.rows.commandEvents →
      EventsInv ({ s with rows := rows }.setSweep i pc') := by
    intro pc' rows hh hh' hrows
    refine ⟨hs.noKills, hs.start, hs.idle, hs.seqs, fun ev => ?_⟩
    have h1 := hs.accounted ev
    have h2 := count_set_held hpc pc' ev
    rw [hh, hh'] at h2
    simp only [setSweep, sweepsHeld, hrows, List.count_nil] at h1 h2 ⊢
    omega
  unfold sweepStep at h
  split at h
  case h_7 =>
    split_ifs at h
    · cases h
      refine ⟨hs.noKills, hs.start, hs.idle, hs.seqs, fun ev => ?_⟩
      have h1 := hs.accounted ev
      have h2 := count_set_held hpc (.events s.shared.drainCommandEvents.1) ev
      simp only [setSweep, sweepsHeld, SweepPc.held, Shared.drainCommandEvents, List.count_nil]
        at h1 h2 ⊢
      omega
    · cases h
      exact hmove _ s.rows rfl rfl rfl
  case h_8 evs =>
    cases h
    have hheld : ∀ ev, (s.sweepsHeld).count ev ≥ evs.count ev := fun ev => by
      have h2 := count_set_held hpc .done ev
      simp only [SweepPc.held, List.count_nil, sweepsHeld] at h2 ⊢
      omega
    have hrows := hs.append evs fun ev => by
      have h1 := hs.accounted ev
      have h2 := hheld ev
      omega
    refine ⟨hs.noKills, hs.start, hs.idle, hs.seqs, fun ev => ?_⟩
    have h1 := hs.accounted ev
    have h2 := count_set_held hpc .done ev
    simp only [setSweep, sweepsHeld, hrows, SweepPc.held, List.count_append, List.count_nil]
      at h1 h2 ⊢
    omega
  case h_9 => cases h
  case h_4 m =>
    cases h
    exact hmove _ _ rfl rfl rfl
  case h_6 bytes =>
    cases h
    exact hmove _ _ rfl rfl rfl
  all_goals
    cases h
    refine hmove _ s.rows rfl ?_ rfl
    split_ifs <;> rfl

theorem eventsInv_step (s : Sess) (a : Act) (t : Sess) (hs : EventsInv s) (ha : a ≠ .startKill)
    (h : s.step a = some t) : EventsInv t := by
  cases a with
  | create => exact eventsInv_createStep hs h
  | read chunk =>
    simp only [step, readStep] at h
    split at h <;> cases h
    exact SameEvents.inv (s := s) ⟨rfl, rfl, rfl, rfl, rfl, rfl, rfl, rfl, rfl⟩ hs
  | eof =>
    simp only [step, eofStep] at h
    split at h <;> cases h
    exact SameEvents.inv (s := s) ⟨rfl, rfl, rfl, rfl, rfl, rfl, rfl, rfl, rfl⟩ hs
  | reader now g => exact eventsInv_readerStep hs h
  | exit st =>
    simp only [step, exitStep] at h
    split at h <;> cases h
    rename_i hw
    refine ⟨hs.noKills, fun hc => ?_, fun hne => ?_, hs.seqs, fun ev => ?_⟩
    · rw [hs.start hc] at hw
      cases hw
    · obtain ⟨x, hx⟩ := hs.idle hne
      rw [hx] at hw
      cases hw
    · have := hs.accounted ev
      rw [hw] at this
      exact this
  | waiter => exact eventsInv_waiterStep hs h
  | ticker g =>
    simp only [step, tickerStep] at h
    split at h <;> cases h <;>
      exact SameEvents.inv (s := s) ⟨rfl, rfl, rfl, rfl, rfl, rfl, rfl, rfl, rfl⟩ hs
  | flush => exact eventsInv_flushStep hs h
  | startSweep =>
    cases h
    refine SameEvents.inv (s := s) ⟨rfl, rfl, rfl, rfl, rfl, rfl, rfl, rfl, ?_⟩ hs
    simp [sweepsHeld, SweepPc.held]
  | sweep i =>
    obtain ⟨pc, hpc, h⟩ := Option.bind_eq_some_iff.1 h
    exact eventsInv_sweepStep hs hpc h
  | startKill => exact absurd rfl ha
  | kill i =>
    rw [step, hs.noKills] at h
    cases h

theorem eventsInv_init (shared : Shared) (hseq : shared.commandSeq = 0)
    (hpend : shared.pendingCommandEvents = []) : EventsInv (init shared) := by
  refine ⟨rfl, fun _ => rfl, fun h => absurd rfl h, ?_, fun ev => ?_⟩
  · simp [init, hseq]
  · simp [init, hpend, SessionRows.empty, sweepsHeld, WaiterPc.held, FlushPc.held]

end Sess

end BuilderPro
