import BuilderPro.Sessiond.SessionThreads

/-!
# Every session's end is announced

The wait thread's callback looks its session up before it announces the child's exit.  In every run
in which it finds the session there, and in which its broadcast comes after the creating request's,
each announced session gets its one `ChildExited` (`end_announced_of_safe`).
-/

namespace BuilderPro

def Push.isCreated : Push → Bool
  | .sessionCreated _ => true
  | .childExited _ _ _ => false

/-- The creating request has passed the point at which it announces the session. -/
def CreatorPc.pastAnnounce : CreatorPc → Bool
  | .getMeta => true
  | .metaActive _ => true
  | .track _ => true
  | .persist _ => true
  | .replied => true
  | .failed => true
  | _ => false

/-- The exit a final flush is for. -/
def FlushPc.exit : FlushPc → Option ExitRecord
  | .persist x _ _ _ => some x
  | .scrollback x _ _ => some x
  | .events x _ => some x
  | .announce x => some x
  | _ => none

namespace Sess

def announced (s : Sess) : Bool := s.pushes.any Push.isCreated

/-- The creating request has looked the session up for its announcement and found it gone. -/
def unannounced (s : Sess) : Bool := s.creator.pastAnnounce && !s.announced

/-- Nothing of the session's end is left to do. -/
def Ended (s : Sess) : Prop := (∃ x, s.waiter = .done x) ∧ (s.flush = .idle ∨ s.flush = .done)

/-- An announced session's end is announced once, after the session and with the recorded exit, and
at the latest when nothing of the end is left to do. -/
def EndAnnounced (s : Sess) : Prop :=
  ∀ m, .sessionCreated m ∈ s.pushes →
    (s.pushes = [.sessionCreated m] ∧ ¬ s.Ended) ∨
      ∃ x, s.waiter = .done x ∧
        s.pushes = [.sessionCreated m, .childExited s.shared.id x.code x.signal]

/-- The callback looks up a session that is in the map, and the exit is broadcast once the session
is; a session that is never announced is free of both. -/
def announceSafe (s : Sess) : Act → Bool
  | .waiter =>
    match s.waiter with
    | .getMeta _ => s.inMap || s.unannounced
    | _ => true
  | .flush =>
    match s.flush with
    | .announce _ => s.announced || s.unannounced
    | _ => true
  | _ => true

/-- What safe steps keep. -/
structure AnnounceInv (s : Sess) : Prop where
  start : s.creator = .spawnReader ∨ s.creator = .spawnWaiter → s.waiter = .notStarted
  flushed : ∀ x, s.flush.exit = some x → s.waiter = .done x
  idle : s.flush ≠ .idle → ∃ x, s.waiter = .done x
  missed : ∀ x, s.waiter = .done x → s.flush = .idle → s.unannounced
  done : s.flush = .done → s.creator.pastAnnounce
  early : s.creator.pastAnnounce = false → s.pushes = []
  late : s.announced → ∃ m, (s.pushes = [.sessionCreated m] ∧ s.flush ≠ .done) ∨
    (s.flush = .done ∧ ∃ x, s.waiter = .done x ∧
      s.pushes = [.sessionCreated m, .childExited s.shared.id x.code x.signal])

variable {s t : Sess}

/-- A step that leaves the announcements and what they wait for alone. -/
structure SameAnnounce (s t : Sess) : Prop where
  waiter : t.waiter = s.waiter
  flush : t.flush = s.flush
  creator : t.creator = s.creator
  pushes : t.pushes = s.pushes
  id : t.shared.id = s.shared.id

theorem SameAnnounce.inv (h : SameAnnounce s t) (hs : AnnounceInv s) : AnnounceInv t := by
  have ha : t.announced = s.announced := by rw [announced, announced, h.pushes]
  have hu : t.unannounced = s.unannounced := by rw [unannounced, unannounced, h.creator, ha]
  constructor
  · rw [h.creator, h.waiter]; exact hs.start
  · rw [h.flush, h.waiter]; exact hs.flushed
  · rw [h.flush, h.waiter]; exact hs.idle
  · rw [h.flush, h.waiter, hu]; exact hs.missed
  · rw [h.flush, h.creator]; exact hs.done
  · rw [h.creator, h.pushes]; exact hs.early
  · rw [ha, h.pushes, h.flush, h.waiter, h.id]; exact hs.late

theorem record_id (sh : Shared) (ev : OscEvent) (now : Int) : (sh.record ev now).id = sh.id := by
  cases ev <;> rfl

theorem readerStep_announce {now : Int} {g : Signals} (h : s.readerStep now g = some t) :
    SameAnnounce s t := by
  unfold readerStep at h
  split at h <;> cases h
  case h_2 => exact ⟨rfl, rfl, rfl, rfl, record_id _ _ _⟩
  all_goals exact ⟨rfl, rfl, rfl, rfl, rfl⟩

theorem tickerStep_announce {g : Signals} (h : s.tickerStep g = some t) : SameAnnounce s t := by
  unfold tickerStep at h
  split at h <;> cases h <;> exact ⟨rfl, rfl, rfl, rfl, rfl⟩

theorem sweepStep_announce {i : ℕ} {pc : SweepPc} (h : s.sweepStep i pc = some t) :
    SameAnnounce s t := by
  unfold sweepStep at h
  split at h <;> (try split_ifs at h) <;> cases h <;> exact ⟨rfl, rfl, rfl, rfl, rfl⟩

theorem killStep_announce {i : ℕ} {pc : KillPc} (h : s.killStep i pc = some t) :
    SameAnnounce s t := by
  unfold killStep at h
  split at h <;> (try split at h) <;> cases h <;> exact ⟨rfl, rfl, rfl, rfl, rfl⟩

theorem AnnounceInv.flush_idle (hs : AnnounceInv s) (h : ∀ x, s.waiter ≠ .done x) :
    s.flush = .idle := by
  by_contra hne
  obtain ⟨x, hx⟩ := hs.idle hne
  exact h x hx

/-- While the wait thread is not done, its moves cannot upset the announcements. -/
theorem AnnounceInv.waiter (hs : AnnounceInv s) (hw : ∀ x, s.waiter ≠ .done x)
    (hst : s.creator ≠ .spawnReader ∧ s.creator ≠ .spawnWaiter) (sh : Shared) (w : WaiterPc)
    (hw' : ∀ x, w = .done x → s.unannounced) :
    AnnounceInv { s with shared := sh, waiter := w } := by
  have hf := hs.flush_idle hw
  have hlate : s.announced → ∃ m, s.pushes = [.sessionCreated m] := by
    intro ha
    obtain ⟨m, ⟨hp, -⟩ | ⟨hd, -⟩⟩ := hs.late ha
    · exact ⟨m, hp⟩
    · rw [hf] at hd
      cases hd
  refine ⟨fun h => ?_, fun x hx => ?_, fun h => absurd hf h, fun x hx _ => hw' x hx, hs.done,
    hs.early, fun ha => ?_⟩
  · rcases h with h | h
    · exact absurd h hst.1
    · exact absurd h hst.2
  · simp [hf, FlushPc.exit] at hx
  · obtain ⟨m, hm⟩ := hlate ha
    exact ⟨m, .inl ⟨hm, by simp [hf]⟩⟩

/-- The creating request's own moves, but for its announcement. -/
theorem AnnounceInv.create (hs : AnnounceInv s) (c : CreatorPc) (hc : c ≠ .spawnReader)
    (hst : c = .spawnWaiter → s.waiter = .notStarted)
    (hpast : s.creator.pastAnnounce → c.pastAnnounce) (rd : ReaderPc) (tk : TickerPc)
    (inMap live : Bool) (rows : SessionRows) :
    AnnounceInv { s with
      creator := c, reader := rd, ticker := tk, inMap := inMap, live := live, rows := rows } := by
  refine ⟨fun h => ?_, hs.flushed, hs.idle, fun x hx hf => ?_, fun h => hpast (hs.done h),
    fun h => hs.early ?_, hs.late⟩
  · rcases h with h | h
    · exact absurd h hc
    · exact hst h
  · have hu := hs.missed x hx hf
    simp only [unannounced, Bool.and_eq_true] at hu ⊢
    exact ⟨hpast hu.1, hu.2⟩
  · by_contra hp
    rw [hpast (by simpa using hp)] at h
    cases h

theorem announceInv_createStep (hs : AnnounceInv s) (h : s.createStep = some t) :
    AnnounceInv t := by
  unfold createStep at h
  split at h
  case h_1 hc =>
    cases h
    exact hs.create _ (by simp) (fun _ => hs.start (.inl hc)) (by simp [hc, CreatorPc.pastAnnounce])
      _ _ _ _ _
  case h_2 hc =>
    cases h
    have hw := hs.start (.inr hc)
    have hf := hs.flush_idle fun x hx => by rw [hw] at hx; cases hx
    have hp := hs.early (by rw [hc]; rfl)
    refine ⟨by simp, fun x hx => ?_, fun hne => absurd hf hne, by simp, fun hd => ?_, fun _ => hp,
      fun ha => ?_⟩
    · simp [hf, FlushPc.exit] at hx
    · simp [hf] at hd
    · simp [announced, hp] at ha
  case h_7 m hc =>
    cases h
    have hp := hs.early (by rw [hc]; rfl)
    have hnot : s.creator.pastAnnounce = false := by rw [hc]; rfl
    have hnd : s.flush ≠ .done := fun hd => by rw [hs.done hd] at hnot; cases hnot
    refine ⟨by simp, hs.flushed, hs.idle, fun x hx hf => ?_, fun _ => rfl,
      by simp [CreatorPc.pastAnnounce], fun _ => ⟨m, .inl ⟨by simp [hp], hnd⟩⟩⟩
    have hu := hs.missed x hx hf
    simp [unannounced, hnot] at hu
  case h_12 => cases h
  case h_13 => cases h
  all_goals
    rename_i hc
    (try split_ifs at h) <;> cases h <;>
      exact hs.create _ (by simp) (by simp) (by simp [hc, CreatorPc.pastAnnounce]) _ _ _ _ _

theorem announceInv_waiterStep (hs : AnnounceInv s) (hsafe : s.announceSafe .waiter)
    (h : s.waiterStep = some t) : AnnounceInv t := by
  have hst : s.waiter ≠ .notStarted → s.creator ≠ .spawnReader ∧ s.creator ≠ .spawnWaiter :=
    fun hw => ⟨fun hc => hw (hs.start (.inl hc)), fun hc => hw (hs.start (.inr hc))⟩
  unfold waiterStep at h
  split at h
  case h_6 x hw =>
    split_ifs at h with hm
    · cases h
      exact hs.waiter (by simp [hw]) (hst (by simp [hw])) _ _ (by simp)
    · cases h
      have hu : s.unannounced := by simpa [announceSafe, hw, hm] using hsafe
      exact hs.waiter (by simp [hw]) (hst (by simp [hw])) _ _ fun _ _ => hu
  case h_10 x m b evs hw =>
    cases h
    have hf := hs.flush_idle (by simp [hw])
    refine ⟨fun hc => ?_, fun y hy => ?_, fun _ => ⟨x, rfl⟩, by simp, by simp, hs.early,
      fun ha => ?_⟩
    · exact absurd (hs.start hc) (by simp [hw])
    · simpa [FlushPc.exit] using hy
    · obtain ⟨m, ⟨hp, -⟩ | ⟨hd, -⟩⟩ := hs.late ha
      · exact ⟨m, .inl ⟨hp, by simp⟩⟩
      · rw [hf] at hd
        cases hd
  case h_11 => cases h
  all_goals
    rename_i hw
    (try split_ifs at h) <;> cases h <;>
      exact hs.waiter (by simp [hw]) (hst (by simp [hw])) _ _ (by simp)

theorem announceInv_flushStep (hs : AnnounceInv s) (hsafe : s.announceSafe .flush)
    (h : s.flushStep = some t) : AnnounceInv t := by
  have hmove : ∀ x f rows, s.flush.exit = some x → FlushPc.exit f = some x →
      AnnounceInv { s with flush := f, rows := rows } := by
    intro x f rows hx hf
    have hw := hs.flushed x hx
    refine ⟨hs.start, fun y hy => ?_, fun _ => ⟨x, hw⟩, fun y _ hid => ?_, fun hd => ?_, hs.early,
      fun ha => ?_⟩
    · obtain rfl : x = y := by simpa [hf] using hy
      exact hw
    · simp only at hid
      simp [hid, FlushPc.exit] at hf
    · simp only at hd
      simp [hd, FlushPc.exit] at hf
    · obtain ⟨m, ⟨hp, -⟩ | ⟨hd, -⟩⟩ := hs.late ha
      · refine ⟨m, .inl ⟨hp, fun hd => ?_⟩⟩
        simp only at hd
        simp [hd, FlushPc.exit] at hf
      · simp [hd, FlushPc.exit] at hx
  unfold flushStep at h
  split at h
  case h_5 x hf =>
    cases h
    have hw := hs.flushed x (by rw [hf]; rfl)
    have hcase : s.announced ∨ s.unannounced := by simpa [announceSafe, hf] using hsafe
    have hpast : s.creator.pastAnnounce := by
      by_contra hp
      have hnil := hs.early (by simpa using hp)
      rcases hcase with ha | hu
      · simp [announced, hnil] at ha
      · simp [unannounced, hp] at hu
    refine ⟨hs.start, by simp [FlushPc.exit], fun _ => ⟨x, hw⟩, by simp, fun _ => hpast,
      fun he => ?_, fun ha => ?_⟩
    · rw [hpast] at he
      cases he
    · have ha' : s.announced := by simpa [announced, Push.isCreated] using ha
      obtain ⟨m, ⟨hp, -⟩ | ⟨hd, -⟩⟩ := hs.late ha'
      · exact ⟨m, .inr ⟨rfl, x, hw, by simp [hp]⟩⟩
      · rw [hf] at hd
        cases hd
  case h_6 => cases h
  all_goals
    rename_i hf
    cases h
    exact hmove _ _ _ (by rw [hf]; rfl) rfl

theorem announceInv_step (s : Sess) (a : Act) (t : Sess) (hs : AnnounceInv s)
    (hsafe : s.announceSafe a) (h : s.step a = some t) : AnnounceInv t := by
  cases a with
  | create => exact announceInv_createStep hs h
  | read chunk =>
    simp only [step, readStep] at h
    split at h <;> cases h
    exact SameAnnounce.inv (s := s) ⟨rfl, rfl, rfl, rfl, rfl⟩ hs
  | eof =>
    simp only [step, eofStep] at h
    split at h <;> cases h
    exact SameAnnounce.inv (s := s) ⟨rfl, rfl, rfl, rfl, rfl⟩ hs
  | reader now g => exact (readerStep_announce h).inv hs
  | exit st =>
    simp only [step, exitStep] at h
    split at h <;> cases h
    rename_i hw
    refine hs.waiter (by simp [hw]) ⟨fun hc => ?_, fun hc => ?_⟩ _ _ (by simp)
    · rw [hs.start (.inl hc)] at hw
      cases hw
    · rw [hs.start (.inr hc)] at hw
      cases hw
  | waiter => exact announceInv_waiterStep hs hsafe h
  | ticker g => exact (tickerStep_announce h).inv hs
  | flush => exact announceInv_flushStep hs hsafe h
  | startSweep =>
    cases h
    exact SameAnnounce.inv (s := s) ⟨rfl, rfl, rfl, rfl, rfl⟩ hs
  | sweep i =>
    obtain ⟨pc, -, h⟩ := Option.bind_eq_some_iff.1 h
    exact (sweepStep_announce h).inv hs
  | startKill =>
    cases h
    exact SameAnnounce.inv (s := s) ⟨rfl, rfl, rfl, rfl, rfl⟩ hs
  | kill i =>
    obtain ⟨pc, -, h⟩ := Option.bind_eq_some_iff.1 h
    exact (killStep_announce h).inv hs

theorem announceInv_init (shared : Shared) : AnnounceInv (init shared) := by
  refine ⟨fun _ => rfl, fun x hx => ?_, fun h => absurd rfl h, fun x hx => ?_, fun h => ?_,
    fun _ => rfl, fun h => ?_⟩
  · cases hx
  · cases hx
  · cases h
  · cases h

theorem AnnounceInv.endAnnounced (hs : AnnounceInv s) : EndAnnounced s := by
  intro m hm
  have ha : s.announced := List.any_eq_true.2 ⟨_, hm, rfl⟩
  obtain ⟨m', ⟨hp, hd⟩ | ⟨hd, x, hw, hp⟩⟩ := hs.late ha
  · obtain rfl : m = m' := by simpa [hp] using hm
    refine .inl ⟨hp, fun ⟨⟨x, hx⟩, hf⟩ => ?_⟩
    have hu := hs.missed x hx (hf.resolve_right hd)
    simp [unannounced, ha] at hu
  · obtain rfl : m = m' := by simpa [hp] using hm
    exact .inr ⟨x, hw, hp⟩

/-- Along safe steps every announced session's end is announced. -/
theorem end_announced_of_safe (shared : Shared) {as : List Act} {t : Sess}
    (hsafe : Runs.Along step (fun s a => s.announceSafe a) (init shared) as)
    (hr : run (init shared) as = some t) : EndAnnounced t :=
  (hsafe.keeps announceInv_step (announceInv_init shared) hr).endAnnounced

/-- A shell that ends after the creating request has answered. -/
theorem end_announced_run : ∃ t, run (init (freshShared "s" "w" "zsh" "/bin/zsh" "/" 80 24 0))
    (List.replicate 11 .create ++ .exit (.exited 0) :: List.replicate 10 .waiter ++
      List.replicate 4 .flush) = some t ∧ EndAnnounced t := by
  obtain ⟨t, ht⟩ := Option.isSome_iff_exists.1 (show (run
    (init (freshShared "s" "w" "zsh" "/bin/zsh" "/" 80 24 0))
    (List.replicate 11 .create ++ .exit (.exited 0) :: List.replicate 10 .waiter ++
      List.replicate 4 .flush)).isSome from by decide)
  exact ⟨t, ht, end_announced_of_safe _ (by decide) ht⟩

/-- A shell that ends before the creating request has put it into the map: the callback finds no
session, and the session announced afterwards never ends. -/
theorem early_exit_unannounced : ¬ ∀ (shared : Shared) (as : List Act) (t : Sess),
    run (init shared) as = some t → EndAnnounced t := by
  intro h
  let shared := freshShared "s" "w" "zsh" "/bin/zsh" "/" 80 24 0
  let as : List Act := .create :: .create :: .exit (.exited 0) ::
    (List.replicate 6 .waiter ++ List.replicate 5 .create)
  have hlast : (run (init shared) as).map (fun t => (t.waiter, t.flush, t.pushes)) =
      some (.done ⟨some 0, none⟩, .idle, [.sessionCreated
        { shared.getMeta with lifecycle := .exited (some 0) none, isActive := false }]) := by
    decide
  obtain ⟨t, ht, hwp⟩ := Option.map_eq_some_iff.1 hlast
  obtain ⟨hw, hwp⟩ := Prod.mk.inj hwp
  obtain ⟨hf, hp⟩ := Prod.mk.inj hwp
  rcases h shared as t ht _ (by rw [hp]; exact List.mem_singleton_self _) with ⟨-, he⟩ | ⟨x, -, hx⟩
  · exact he ⟨⟨_, hw⟩, .inl hf⟩
  · rw [hp] at hx
    simp at hx

/-! ## The end is never stuck -/

/-- How far the wait thread and the final flush are from the end. -/
def toEnd (s : Sess) : ℕ :=
  (match s.waiter with
    | .setInactive _ => 15
    | .setCode _ => 14
    | .setSignal _ => 13
    | .setLifecycle _ => 12
    | .setWaiting _ => 11
    | .getMeta _ => 10
    | .metaActive _ _ => 9
    | .snapshot _ _ => 8
    | .drain _ _ _ => 7
    | .spawn _ _ _ _ => 6
    | _ => 0) +
  match s.flush with
    | .persist _ _ _ _ => 4
    | .scrollback _ _ _ => 3
    | .events _ _ => 2
    | .announce _ => 1
    | _ => 0

theorem waiterStep_toEnd (hs : s.waiter ≠ .notStarted ∧ s.waiter ≠ .waiting)
    (hd : ∀ x, s.waiter ≠ .done x) : ∃ t, s.waiterStep = some t ∧ t.toEnd < s.toEnd ∧
      t.waiter ≠ .notStarted ∧ t.waiter ≠ .waiting := by
  rcases hw : s.waiter
  case notStarted => exact absurd hw hs.1
  case waiting => exact absurd hw hs.2
  case done x => exact absurd hw (hd x)
  case getMeta x => by_cases hm : s.inMap <;> simp [waiterStep, hw, hm, toEnd]
  case drain x m b => by_cases hm : s.inMap <;> simp [waiterStep, hw, hm, toEnd]
  case spawn x m b evs =>
    refine ⟨_, by rw [waiterStep, hw], ?_, by simp⟩
    simp only [toEnd, hw]
    omega
  all_goals simp [waiterStep, hw, toEnd]

theorem flushStep_toEnd (hf : s.flush ≠ .idle ∧ s.flush ≠ .done) :
    ∃ t, s.flushStep = some t ∧ t.toEnd < s.toEnd ∧ t.waiter = s.waiter := by
  rcases h : s.flush
  case idle => exact absurd h hf.1
  case done => exact absurd h hf.2
  case scrollback x b evs => cases b <;> simp [flushStep, h, toEnd]
  all_goals simp [flushStep, h, toEnd]

/-- Once the child has exited, the wait thread and the final flush can always go on until nothing of
the end is left to do. -/
theorem end_completes (s : Sess) (hs : s.waiter ≠ .notStarted ∧ s.waiter ≠ .waiting) :
    ∃ as t, (∀ a ∈ as, a = .waiter ∨ a = .flush) ∧ Runs.run step s as = some t ∧ Ended t := by
  induction hn : s.toEnd using Nat.strong_induction_on generalizing s with
  | _ n ih =>
    subst hn
    have hgo : ∀ a u, a = .waiter ∨ a = .flush → s.step a = some u → u.toEnd < s.toEnd →
        u.waiter ≠ .notStarted ∧ u.waiter ≠ .waiting →
        ∃ as t, (∀ a ∈ as, a = .waiter ∨ a = .flush) ∧ Runs.run step s as = some t ∧ Ended t := by
      intro a u ha hu hlt huw
      obtain ⟨as, t, has, hr, ht⟩ := ih _ hlt u huw rfl
      refine ⟨a :: as, t, ?_, by rw [Runs.run_cons, hu]; exact hr, ht⟩
      simpa [ha] using has
    by_cases hd : ∃ x, s.waiter = .done x
    · by_cases hf : s.flush = .idle ∨ s.flush = .done
      · exact ⟨[], s, by simp, rfl, hd, hf⟩
      · obtain ⟨u, hu, hlt, huw⟩ := flushStep_toEnd (not_or.1 hf)
        exact hgo .flush u (.inr rfl) hu hlt (by rwa [huw])
    · obtain ⟨u, hu, hlt, huw⟩ := waiterStep_toEnd hs (not_exists.1 hd)
      exact hgo .waiter u (.inl rfl) hu hlt huw

end Sess

end BuilderPro
