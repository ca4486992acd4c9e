import BuilderPro.Sessiond.CommandEvents

/-!
# The final flush

In a run in which the exit callback captures the reader's last state and no sweep or creating request
writes an older one over the final rows, the rows end as the session ended (`final_rows_of_safe`).
-/

namespace BuilderPro

/-- The callback has taken its snapshot of the ring. -/
def WaiterPc.snapshotted : WaiterPc → Bool
  | .drain _ _ _ => true
  | .spawn _ _ _ _ => true
  | .done _ => true
  | _ => false

/-- The callback has drained the pending events. -/
def WaiterPc.drained : WaiterPc → Bool
  | .spawn _ _ _ _ => true
  | .done _ => true
  | _ => false

/-- The final scrollback row is written. -/
def FlushPc.scrollbackWritten : FlushPc → Bool
  | .events _ _ => true
  | .announce _ => true
  | .done => true
  | _ => false

/-- What the callback holds is the session's end: the exited lifecycle, the ring's snapshot
`snap`. -/
def WaiterPc.Captured (snap : List UInt8) : WaiterPc → Prop
  | .metaActive x m => m.lifecycle = x.lifecycle
  | .snapshot x m => m.lifecycle = x.lifecycle
  | .drain x m b => m.lifecycle = x.lifecycle ∧ b = some snap
  | .spawn x m b _ => m.lifecycle = x.lifecycle ∧ b = some snap
  | _ => True

/-- What the final flush holds, or has written, is the session's end. -/
def FlushPc.Captured (snap : List UInt8) (rows : SessionRows) (w : WaiterPc) : FlushPc → Prop
  | .idle => ∀ x, w ≠ .done x
  | .persist x m b _ => w = .done x ∧ m.lifecycle = x.lifecycle ∧ b = some snap
  | .scrollback x b _ => w = .done x ∧ rows.lifecycle = some x.lifecycle ∧ b = some snap
  | .events x _ => w = .done x ∧ rows.lifecycle = some x.lifecycle ∧ rows.scrollback = some snap
  | .announce x => w = .done x ∧ rows.lifecycle = some x.lifecycle ∧ rows.scrollback = some snap
  | .done => ∃ x, w = .done x ∧ rows.lifecycle = some x.lifecycle ∧ rows.scrollback = some snap

namespace Sess

/-- The exit whose final row is written. -/
def exitRow (s : Sess) : Option ExitRecord :=
  match s.flush with
  | .idle => none
  | .persist _ _ _ _ => none
  | _ => s.waiter.recorded

/-- A sweep or the creating request writes no other lifecycle over the final row. -/
def rowSafe (s : Sess) (m : SessionMeta) : Bool := s.exitRow.all fun x => m.lifecycle == x.lifecycle

/-- The callback captures the reader's last state, and no older state is written over it:
- it looks up a session that is in the map and whose lifecycle is still the recorded one,
- the reader changes the ring's snapshot only before the callback takes it, and pushes command
  events only before the callback drains them,
- a sweep or the creating request that writes after the final flush has written the same. -/
def flushSafe (s : Sess) : Act → Bool
  | .waiter =>
    match s.waiter with
    | .getMeta x => s.inMap && s.shared.lifecycle == x.lifecycle
    | _ => true
  | .reader now _ =>
    match s.reader with
    | .ring chunk _ => !s.waiter.snapshotted ||
        (s.shared.pushScrollback chunk).scrollback.snapshot == s.shared.scrollback.snapshot
    | .record ev _ _ => !s.waiter.drained || (s.shared.commandEvent ev now).isNone
    | _ => true
  | .create =>
    match s.creator with
    | .persist m => s.rowSafe m
    | _ => true
  | .sweep i =>
    match s.sweeps[i]? with
    | some (.persist m) => s.rowSafe m
    | some (.scrollback bytes) =>
      !s.flush.scrollbackWritten || bytes == s.shared.scrollback.snapshot
    | _ => true
  | _ => true

structure CaptureInv (s : Sess) : Prop where
  map : ∀ x, s.waiter.recorded = some x → s.waiter = .getMeta x ∨ s.inMap
  waiter : s.waiter.Captured s.shared.scrollback.snapshot
  flush : s.flush.Captured s.shared.scrollback.snapshot s.rows s.waiter
  drained : s.waiter.drained → s.shared.pendingCommandEvents = []

variable {s t : Sess}

/-- A step that leaves what was captured alone. -/
structure SameCapture (s t : Sess) : Prop where
  waiter : t.waiter = s.waiter
  flush : t.flush = s.flush
  snapshot : t.shared.scrollback.snapshot = s.shared.scrollback.snapshot
  lifecycle : t.rows.lifecycle = s.rows.lifecycle
  scrollback : t.rows.scrollback = s.rows.scrollback
  inMap : s.inMap → t.inMap
  pending : s.shared.pendingCommandEvents = [] → t.shared.pendingCommandEvents = []

theorem captured_congr {snap : List UInt8} {rows rows' : SessionRows}
    {w : WaiterPc} {f : FlushPc} (hl : rows'.lifecycle = rows.lifecycle)
    (hb : rows'.scrollback = rows.scrollback) (h : f.Captured snap rows w) :
    f.Captured snap rows' w := by
  cases f <;> simp only [FlushPc.Captured, hl, hb] at h ⊢ <;> exact h

theorem SameCapture.inv (h : SameCapture s t) (hs : CaptureInv s) : CaptureInv t := by
  constructor
  · rw [h.waiter]
    exact fun x hx => (hs.map x hx).imp_right h.inMap
  · rw [h.waiter, h.snapshot]; exact hs.waiter
  · rw [h.flush, h.waiter, h.snapshot]; exact captured_congr h.lifecycle h.scrollback hs.flush
  · rw [h.waiter]; exact fun hd => h.pending (hs.drained hd)

/-- A row written after the final one holds the exited lifecycle again. -/
theorem CaptureInv.upsert (hs : CaptureInv s) {m : SessionMeta} (hm : s.rowSafe m) :
    s.flush.Captured s.shared.scrollback.snapshot (s.rows.upsertSession m) s.waiter := by
  have hrow : (s.rows.upsertSession m).lifecycle = some m.lifecycle := rfl
  have hsame : ∀ x, s.exitRow = some x → m.lifecycle = x.lifecycle := fun x hx => by
    simpa [rowSafe, hx] using hm
  have hf := hs.flush
  rcases h : s.flush with _ | ⟨x, m', b, evs⟩ | ⟨x, b, evs⟩ | ⟨x, evs⟩ | x | _ <;> rw [h] at hf
  · exact hf
  · exact hf
  · obtain ⟨hw, -, hb⟩ := hf
    exact ⟨hw, by rw [hrow, hsame x (by simp [exitRow, h, hw, WaiterPc.recorded])], hb⟩
  · obtain ⟨hw, -, hb⟩ := hf
    exact ⟨hw, by rw [hrow, hsame x (by simp [exitRow, h, hw, WaiterPc.recorded])], hb⟩
  · obtain ⟨hw, -, hb⟩ := hf
    exact ⟨hw, by rw [hrow, hsame x (by simp [exitRow, h, hw, WaiterPc.recorded])], hb⟩
  · obtain ⟨x, hw, -, hb⟩ := hf
    exact ⟨x, hw, by rw [hrow, hsame x (by simp [exitRow, h, hw, WaiterPc.recorded])], hb⟩

theorem captureInv_createStep (he : EventsInv s) (hs : CaptureInv s)
    (hsafe : s.flushSafe .create) (h : s.createStep = some t) : CaptureInv t := by
  unfold createStep at h
  split at h
  case h_2 hc =>
    cases h
    have hw := he.start (.inr hc)
    have hf : s.flush = .idle := by
      by_contra hne
      obtain ⟨x, hx⟩ := he.idle hne
      rw [hw] at hx
      cases hx
    refine ⟨by simp [WaiterPc.recorded], trivial, ?_, by simp [WaiterPc.drained]⟩
    simp [hf, FlushPc.Captured]
  case h_4 hc =>
    cases h
    exact SameCapture.inv (s := s) ⟨rfl, rfl, rfl, rfl, rfl, fun _ => rfl, id⟩ hs
  case h_11 m hc =>
    cases h
    exact ⟨hs.map, hs.waiter, hs.upsert (by simpa [flushSafe, hc] using hsafe), hs.drained⟩
  case h_12 => cases h
  case h_13 => cases h
  all_goals
    (try split_ifs at h) <;> cases h <;>
      exact SameCapture.inv (s := s) ⟨rfl, rfl, rfl, rfl, rfl, id, id⟩ hs

/-- Before the callback takes its snapshot, nothing captured depends on the ring. -/
theorem CaptureInv.ring (he : EventsInv s) (hs : CaptureInv s) (sh : Shared) (rd : ReaderPc)
    (hsnap : s.waiter.snapshotted = false ∨ sh.scrollback.snapshot = s.shared.scrollback.snapshot)
    (hpend : sh.pendingCommandEvents = s.shared.pendingCommandEvents) :
    CaptureInv { s with shared := sh, reader := rd } := by
  rcases hsnap with hsnap | hsnap
  · have hf : s.flush = .idle := by
      by_contra hne
      obtain ⟨x, hx⟩ := he.idle hne
      simp [hx, WaiterPc.snapshotted] at hsnap
    have hw := hs.waiter
    have hidle := hs.flush
    rw [hf] at hidle
    refine ⟨hs.map, ?_, ?_, by simpa [hpend] using hs.drained⟩
    · rcases hwt : s.waiter <;> rw [hwt] at hw hsnap <;> first
        | exact hw
        | simp [WaiterPc.snapshotted] at hsnap
    · simp only [hf]
      exact hidle
  · exact SameCapture.inv (s := s) ⟨rfl, rfl, hsnap, rfl, rfl, id, by simp [hpend]⟩ hs

theorem captureInv_readerStep (he : EventsInv s) (hs : CaptureInv s) {now : Int} {g : Signals}
    (hsafe : s.flushSafe (.reader now g)) (h : s.readerStep now g = some t) : CaptureInv t := by
  unfold readerStep at h
  split at h
  case h_2 ev evs chunk hr =>
    cases h
    have hsnap : (s.shared.record ev now).scrollback = s.shared.scrollback := by cases ev <;> rfl
    have hok : s.waiter.drained = false ∨ s.shared.commandEvent ev now = none := by
      simpa [flushSafe, hr] using hsafe
    refine ⟨hs.map, by simpa only [hsnap] using hs.waiter, by simpa only [hsnap] using hs.flush,
      fun hd => ?_⟩
    have hnone := hok.resolve_left (by simpa using hd)
    simpa [(record_events s.shared ev now).1, hnone] using hs.drained hd
  case h_3 chunk dirty hr =>
    cases h
    refine hs.ring he _ _ ?_ rfl
    simpa [flushSafe, hr] using hsafe
  case h_7 => cases h
  all_goals
    cases h
    exact SameCapture.inv (s := s) ⟨rfl, rfl, rfl, rfl, rfl, id, id⟩ hs

theorem captureInv_waiterStep (he : EventsInv s) (hs : CaptureInv s)
    (hsafe : s.flushSafe .waiter) (h : s.waiterStep = some t) : CaptureInv t := by
  have hidle : (∀ x, s.waiter ≠ .done x) → s.flush = .idle := fun hd => by
    by_contra hne
    obtain ⟨x, hx⟩ := he.idle hne
    exact hd x hx
  have hw := hs.waiter
  unfold waiterStep at h
  split at h
  case h_6 x hwt =>
    have hok : s.inMap ∧ s.shared.lifecycle = x.lifecycle := by simpa [flushSafe, hwt] using hsafe
    rw [if_pos hok.1] at h
    cases h
    refine ⟨fun _ _ => .inr hok.1, hok.2, ?_, by simp [WaiterPc.drained]⟩
    simp [hidle (by simp [hwt]), FlushPc.Captured]
  case h_7 x m hwt =>
    cases h
    rw [hwt] at hw
    have hm := (hs.map x (by rw [hwt]; rfl)).resolve_left (by simp [hwt])
    refine ⟨fun _ _ => .inr hm, hw, ?_, by simp [WaiterPc.drained]⟩
    simp [hidle (by simp [hwt]), FlushPc.Captured]
  case h_8 x m hwt =>
    cases h
    rw [hwt] at hw
    have hm := (hs.map x (by rw [hwt]; rfl)).resolve_left (by simp [hwt])
    refine ⟨fun _ _ => .inr hm, ⟨hw, by simp [hm]⟩, ?_, by simp [WaiterPc.drained]⟩
    simp [hidle (by simp [hwt]), FlushPc.Captured]
  case h_9 x m b hwt =>
    rw [hwt] at hw
    have hm := (hs.map x (by rw [hwt]; rfl)).resolve_left (by simp [hwt])
    rw [if_pos hm] at h
    cases h
    refine ⟨fun _ _ => .inr hm, hw, ?_, fun _ => rfl⟩
    simp [hidle (by simp [hwt]), FlushPc.Captured]
  case h_10 x m b evs hwt =>
    cases h
    rw [hwt] at hw
    have hm := (hs.map x (by rw [hwt]; rfl)).resolve_left (by simp [hwt])
    exact ⟨fun _ _ => .inr hm, trivial, ⟨rfl, hw⟩, fun _ => hs.drained (by rw [hwt]; rfl)⟩
  case h_5 x hwt =>
    cases h
    refine ⟨fun y hy => .inl ?_, trivial, ?_, by simp [WaiterPc.drained]⟩
    · obtain rfl : x = y := by simpa [WaiterPc.recorded] using hy
      rfl
    · simp [hidle (by simp [hwt]), FlushPc.Captured]
  case h_11 => cases h
  all_goals
    rename_i hwt
    cases h
    refine ⟨by simp [WaiterPc.recorded], trivial, ?_, by simp [WaiterPc.drained]⟩
    simp [hidle (by simp [hwt]), FlushPc.Captured]

theorem captureInv_flushStep (he : EventsInv s) (hs : CaptureInv s) (h : s.flushStep = some t) :
    CaptureInv t := by
  have hf := hs.flush
  unfold flushStep at h
  split at h
  case h_1 x m b evs hfl =>
    cases h
    rw [hfl] at hf
    obtain ⟨hw, hm, hb⟩ := hf
    exact ⟨hs.map, hs.waiter, ⟨hw, by rw [← hm]; rfl, hb⟩, hs.drained⟩
  case h_2 x bytes evs hfl =>
    cases h
    rw [hfl] at hf
    obtain ⟨hw, hm, hb⟩ := hf
    exact ⟨hs.map, hs.waiter, ⟨hw, hm, hb⟩, hs.drained⟩
  case h_3 x evs hfl =>
    rw [hfl] at hf
    obtain ⟨-, -, hb⟩ := hf
    cases hb
  case h_4 x evs hfl =>
    cases h
    rw [hfl] at hf
    have hrows := he.append evs fun ev => by
      have := he.accounted ev
      simp only [hfl, FlushPc.held] at this
      omega
    rw [hrows]
    exact ⟨hs.map, hs.waiter, hf, hs.drained⟩
  case h_5 x hfl =>
    cases h
    rw [hfl] at hf
    exact ⟨hs.map, hs.waiter, ⟨x, hf⟩, hs.drained⟩
  case h_6 => cases h

theorem captureInv_sweepStep (he : EventsInv s) (hs : CaptureInv s) {i : ℕ} {pc : SweepPc}
    (hpc : s.sweeps[i]? = some pc) (hsafe : s.flushSafe (.sweep i))
    (h : s.sweepStep i pc = some t) : CaptureInv t := by
  unfold sweepStep at h
  split at h
  case h_4 m =>
    cases h
    exact ⟨hs.map, hs.waiter, hs.upsert (by simpa [flushSafe, hpc] using hsafe), hs.drained⟩
  case h_6 bytes =>
    cases h
    have hok : s.flush.scrollbackWritten = false ∨ bytes = s.shared.scrollback.snapshot := by
      simpa [flushSafe, hpc] using hsafe
    refine ⟨hs.map, hs.waiter, ?_, hs.drained⟩
    have hf := hs.flush
    simp only [setSweep]
    rcases hfl : s.flush <;> rw [hfl] at hf hok <;>
      simp only [FlushPc.scrollbackWritten, Bool.true_eq_false, false_or] at hok <;> try exact hf
    case done =>
      obtain ⟨x, hw, hl, -⟩ := hf
      exact ⟨x, hw, hl, by rw [← hok]; rfl⟩
    all_goals exact ⟨hf.1, hf.2.1, by rw [← hok]; rfl⟩
  case h_7 =>
    split_ifs at h <;> cases h
    · exact SameCapture.inv (s := s) ⟨rfl, rfl, rfl, rfl, rfl, id, fun _ => rfl⟩ hs
    · exact SameCapture.inv (s := s) ⟨rfl, rfl, rfl, rfl, rfl, id, id⟩ hs
  case h_8 evs =>
    cases h
    have hrows := he.append evs fun ev => by
      have h1 := he.accounted ev
      have h2 := count_set_held hpc .done ev
      simp only [SweepPc.held, List.count_nil, sweepsHeld] at h1 h2
      omega
    rw [hrows]
    exact SameCapture.inv (s := s) ⟨rfl, rfl, rfl, rfl, rfl, id, id⟩ hs
  case h_9 => cases h
  all_goals
    cases h
    exact SameCapture.inv (s := s) ⟨rfl, rfl, rfl, rfl, rfl, id, id⟩ hs

theorem captureInv_step (s : Sess) (a : Act) (t : Sess) (he : EventsInv s) (hs : CaptureInv s)
    (ha : a ≠ .startKill) (hsafe : s.flushSafe a) (h : s.step a = some t) : CaptureInv t := by
  cases a with
  | create => exact captureInv_createStep he hs hsafe h
  | read chunk =>
    simp only [step, readStep] at h
    split at h <;> cases h
    exact SameCapture.inv (s := s) ⟨rfl, rfl, rfl, rfl, rfl, id, id⟩ hs
  | eof =>
    simp only [step, eofStep] at h
    split at h <;> cases h
    exact SameCapture.inv (s := s) ⟨rfl, rfl, rfl, rfl, rfl, id, id⟩ hs
  | reader now g => exact captureInv_readerStep he hs hsafe h
  | exit st =>
    simp only [step, exitStep] at h
    split at h <;> cases h
    rename_i hw
    have hf : s.flush = .idle := by
      by_contra hne
      obtain ⟨x, hx⟩ := he.idle hne
      rw [hw] at hx
      cases hx
    refine ⟨by simp [WaiterPc.recorded], trivial, ?_, by simp [WaiterPc.drained]⟩
    simp [hf, FlushPc.Captured]
  | waiter => exact captureInv_waiterStep he hs hsafe h
  | ticker g =>
    simp only [step, tickerStep] at h
    split at h <;> cases h <;>
      exact SameCapture.inv (s := s) ⟨rfl, rfl, rfl, rfl, rfl, id, id⟩ hs
  | flush => exact captureInv_flushStep he hs h
  | startSweep =>
    cases h
    exact SameCapture.inv (s := s) ⟨rfl, rfl, rfl, rfl, rfl, id, id⟩ hs
  | sweep i =>
    obtain ⟨pc, hpc, h⟩ := Option.bind_eq_some_iff.1 h
    exact captureInv_sweepStep he hs hpc hsafe h
  | startKill => exact absurd rfl ha
  | kill i =>
    rw [step, he.noKills] at h
    cases h

/-! ## The rows at the end -/

/-- The reader has finished, the exit callback has run with its flush, the create request is
answered and every started sweep is over. -/
structure Settled (s : Sess) : Prop where
  reader : s.reader = .done
  waiter : ∃ x, s.waiter = .done x
  flush : s.flush = .idle ∨ s.flush = .done
  creator : s.creator = .replied ∨ s.creator = .failed
  sweeps : ∀ pc ∈ s.sweeps, pc = .done

/-- The rows are the session's end: the recorded exit, the ring's snapshot, every command event the
reader pushed, once. -/
def FinalRows (s : Sess) : Prop :=
  (∃ x, s.waiter = .done x ∧ s.rows.lifecycle = some x.lifecycle) ∧
    s.rows.scrollback = some s.shared.scrollback.snapshot ∧
    ∀ ev ∈ s.emitted, s.rows.commandEvents.count ev = 1

theorem finalRows_of_inv (he : EventsInv s) (hs : CaptureInv s) (hq : Settled s) :
    FinalRows s := by
  obtain ⟨x, hx⟩ := hq.waiter
  have hf := hs.flush
  rcases hq.flush with hfl | hfl <;> rw [hfl] at hf
  · exact absurd hx (hf x)
  obtain ⟨y, hw, hl, hb⟩ := hf
  refine ⟨⟨y, hw, hl⟩, hb, fun ev hev => ?_⟩
  have hsweeps : s.sweepsHeld = [] := by
    refine List.flatMap_eq_nil_iff.2 fun pc hpc => ?_
    rw [hq.sweeps pc hpc]
    rfl
  have hpend := hs.drained (by rw [hx]; rfl)
  have hacc := he.accounted ev
  simp only [hsweeps, hpend, hx, hfl, WaiterPc.held, FlushPc.held, List.count_nil] at hacc
  have hle := he.count_le ev
  have hpos := List.count_pos_iff.2 hev
  omega

theorem captureInv_init (shared : Shared) : CaptureInv (init shared) := by
  refine ⟨fun x h => ?_, trivial, fun x h => ?_, fun h => ?_⟩ <;> cases h

/-- Along safe steps, with nobody closing the session, its rows settle on its end. -/
theorem final_rows_of_safe (id workspaceId title shell cwd : String) (cols rows : UInt16)
    (createdAt : Int) {as : List Act} {t : Sess} (hk : .startKill ∉ as)
    (hsafe : Runs.Along step (fun s a => s.flushSafe a)
      (init (freshShared id workspaceId title shell cwd cols rows createdAt)) as)
    (hr : run (init (freshShared id workspaceId title shell cwd cols rows createdAt)) as = some t)
    (hq : Settled t) : FinalRows t := by
  have hinv : EventsInv t ∧ CaptureInv t := by
    refine Runs.Along.keeps (I := fun s => EventsInv s ∧ CaptureInv s) ?_
      (hsafe.and_forall (Q := (· ≠ .startKill)) fun a ha h => hk (h ▸ ha))
      ⟨eventsInv_init _ rfl rfl, captureInv_init _⟩ hr
    rintro s a u ⟨he, hs⟩ ⟨hc, ha⟩ hu
    exact ⟨eventsInv_step s a u he ha hu, captureInv_step s a u he hs ha hc hu⟩
  exact finalRows_of_inv hinv.1 hinv.2 hq

/-- A shell that starts a command, ends, and is swept once before its end. -/
def quietRun : List Act :=
  List.replicate 11 .create ++ [.read [esc, ch ']', ch '1', ch '3', ch '3', ch ';', ch 'C', bel]] ++
    List.replicate 5 (.reader 7 ⟨false, false, false, false⟩) ++ .startSweep ::
      List.replicate 8 (.sweep 0) ++
    [.eof, .reader 7 ⟨false, false, false, false⟩, .exit (.exited 0)] ++
    List.replicate 10 .waiter ++ List.replicate 4 .flush

theorem final_rows_quietRun : ∃ t,
    run (init (freshShared "s" "w" "zsh" "/bin/zsh" "/" 80 24 0)) quietRun = some t ∧
      FinalRows t := by
  have hlast : (run (init (freshShared "s" "w" "zsh" "/bin/zsh" "/" 80 24 0)) quietRun).map
      (fun t => (t.reader, t.waiter, t.flush, t.creator, t.sweeps)) =
        some (.done, .done ⟨some 0, none⟩, .done, .replied, [.done]) := by decide
  obtain ⟨t, ht, hpcs⟩ := Option.map_eq_some_iff.1 hlast
  simp only [Prod.mk.injEq] at hpcs
  obtain ⟨h1, h2, h3, h4, h5⟩ := hpcs
  exact ⟨t, ht, final_rows_of_safe "s" "w" "zsh" "/bin/zsh" "/" 80 24 0 (by decide) (by decide) ht
    ⟨h1, ⟨_, h2⟩, .inr h3, .inl h4, by simp [h5]⟩⟩

/-- A sweep that has read an active session when the child exits, and writes what it read after the
final flush: the row says the session is at its prompt. -/
theorem stale_sweep_overwrites : ¬ ∀ (shared : Shared) (as : List Act) (t : Sess),
    .startKill ∉ as → run (init shared) as = some t → Settled t → FinalRows t := by
  intro h
  let shared := freshShared "s" "w" "zsh" "/bin/zsh" "/" 80 24 0
  let as : List Act := List.replicate 11 .create ++ [.eof, .startSweep] ++
    List.replicate 3 (.sweep 0) ++ [.reader 0 ⟨false, false, false, false⟩, .exit (.exited 0)] ++
    List.replicate 10 .waiter ++ List.replicate 4 .flush ++ List.replicate 5 (.sweep 0)
  have hlast : (run (init shared) as).map
      (fun t => ((t.reader, t.waiter, t.flush), t.creator, t.sweeps, t.rows.lifecycle)) =
        some ((.done, .done ⟨some 0, none⟩, .done), .replied, [.done], some .atPrompt) := by decide
  obtain ⟨t, ht, hpcs⟩ := Option.map_eq_some_iff.1 hlast
  simp only [Prod.mk.injEq] at hpcs
  obtain ⟨⟨h1, h2, h3⟩, h4, h5, h6⟩ := hpcs
  obtain ⟨⟨x, -, hl⟩, -⟩ := h shared as t (by decide) ht
    ⟨h1, ⟨_, h2⟩, .inr h3, .inl h4, by simp [h5]⟩
  rw [h6] at hl
  cases hl

end Sess

end BuilderPro
