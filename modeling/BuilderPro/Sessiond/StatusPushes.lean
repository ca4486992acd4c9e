import BuilderPro.Lib.Runs
import BuilderPro.Sessiond.Session

/-!
# What the client is told of a live session

While the child lives, `create` announces the session, and the reader and the ticker broadcast its
status, each reading one field after the other (`meta`, `emit_status`).  The threads run before the
session is announced.  The client's store applies what it is told; an exited lifecycle is final
there.  A finished command leaves the lifecycle exited until the next prompt, so the store shows
what the daemon has as long as no status is broadcast and no session announced in between, and none
is overtaken by the reader (`shown_of_settled`).
-/

namespace BuilderPro

/-- `StatusUpdate`, which `Push::StateChanged` carries. -/
structure StatusUpdate where
  lifecycle : SessionLifecycle
  waitingForInput : Bool
  cwd : String
  deriving DecidableEq, Repr

def SessionLifecycle.isExited : SessionLifecycle → Bool
  | .exited _ _ => true
  | _ => false

/-- The store's `setLifecycle`, of an entry that is there. -/
def SessionMeta.setLifecycle (m : SessionMeta) (u : StatusUpdate) : SessionMeta :=
  if m.lifecycle.isExited then m
  else { m with
    lifecycle := u.lifecycle
    waitingForInput := u.waitingForInput
    cwd := u.cwd
    isActive := !u.lifecycle.isExited }

/-- What is broadcast of the session. -/
inductive SessionPush
  | created (m : SessionMeta)
  | stateChanged (u : StatusUpdate)
  deriving DecidableEq, Repr

/-- What a push leaves of the store's entry: `upsertSession` overwrites it. -/
def SessionPush.applyTo (entry : Option SessionMeta) : SessionPush → Option SessionMeta
  | .created m => some m
  | .stateChanged u => entry.map (·.setLifecycle u)

/-- Where `emit_status` is. -/
inductive EmitPc
  | lifecycle
  | waiting (l : SessionLifecycle)
  | cwd (l : SessionLifecycle) (waiting : Bool)
  | announce (u : StatusUpdate)
  deriving DecidableEq

/-- The lifecycle it has read. -/
def EmitPc.read : EmitPc → Option SessionLifecycle
  | .lifecycle => none
  | .waiting l => some l
  | .cwd l _ => some l
  | .announce u => some u.lifecycle

/-- A step of `emit_status`, up to the broadcast. -/
def EmitPc.next (sh : Shared) : EmitPc → EmitPc ⊕ StatusUpdate
  | .lifecycle => .inl (.waiting sh.lifecycle)
  | .waiting l => .inl (.cwd l sh.waiting)
  | .cwd l w => .inl (.announce ⟨l, w, sh.cwd⟩)
  | .announce u => .inr u

/-- The reader thread. -/
inductive StatusReaderPc
  | reading
  | advance (ev : OscEvent) (evs : List OscEvent) (chunk : List UInt8)
  | record (ev : OscEvent) (evs : List OscEvent) (chunk : List UInt8)
  | ring (chunk : List UInt8) (statusDirty : Bool)
  | recompute
  | store (running : Bool)
  | emit (pc : EmitPc)
  | setInactive
  | done
  deriving DecidableEq

/-- The ticker thread. -/
inductive StatusTickerPc
  | sleeping
  | checkActive
  | before
  | recompute (before : Bool)
  | store (before running : Bool)
  | after (before : Bool)
  | emit (pc : EmitPc)
  | done
  deriving DecidableEq

/-- The end of `create`, which reads the fields of the announcement by `meta`; the others do not
change. -/
inductive AnnouncePc
  | cwd
  | lifecycle (cwd : String)
  | waiting (cwd : String) (l : SessionLifecycle)
  | active (cwd : String) (l : SessionLifecycle) (waiting : Bool)
  | announce (m : SessionMeta)
  | done
  deriving DecidableEq

/-- The lifecycle it has read. -/
def AnnouncePc.read : AnnouncePc → Option SessionLifecycle
  | .cwd => none
  | .lifecycle _ => none
  | .waiting _ l => some l
  | .active _ l _ => some l
  | .announce m => some m.lifecycle
  | .done => none

/-- A session whose child lives, and what has been broadcast of it. -/
structure StatusSys where
  shared : Shared
  parser : OscParser
  reader : StatusReaderPc
  ticker : StatusTickerPc
  creator : AnnouncePc
  pushes : List SessionPush

inductive StatusAct
  | read (chunk : List UInt8)
  | eof
  | reader (now : Int) (g : Signals)
  | ticker (g : Signals)
  | create
  deriving DecidableEq

namespace StatusSys

variable (s : StatusSys)

/-- Where the reader goes once it has dealt with some of a chunk's events. -/
def afterEvents (statusDirty : Bool) (chunk : List UInt8) : List OscEvent → StatusReaderPc
  | [] => .ring chunk statusDirty
  | ev :: evs => .advance ev evs chunk

def readerStep (now : Int) (g : Signals) : Option StatusSys :=
  match s.reader with
  | .advance ev evs chunk =>
    some { s with shared := s.shared.advance ev, reader := .record ev evs chunk }
  | .record ev evs chunk =>
    some { s with shared := s.shared.record ev now, reader := afterEvents true chunk evs }
  | .ring chunk statusDirty =>
    some { s with
      shared := s.shared.pushScrollback chunk
      reader := if statusDirty then .recompute else .reading }
  | .recompute => some { s with reader := .store (s.shared.lifecycle = .running) }
  | .store running =>
    some { s with shared := s.shared.storeWaiting running g, reader := .emit .lifecycle }
  | .emit pc =>
    match pc.next s.shared with
    | .inl pc => some { s with reader := .emit pc }
    | .inr u => some { s with pushes := s.pushes ++ [.stateChanged u], reader := .reading }
  | .setInactive => some { s with shared := s.shared.setInactive, reader := .done }
  | _ => none

def tickerStep (g : Signals) : Option StatusSys :=
  match s.ticker with
  | .sleeping => some { s with ticker := .checkActive }
  | .checkActive => some { s with ticker := if s.shared.isActive then .before else .done }
  | .before => some { s with ticker := .recompute s.shared.waiting }
  | .recompute before =>
    some { s with ticker := .store before (s.shared.lifecycle = .running) }
  | .store before running =>
    some { s with shared := s.shared.storeWaiting running g, ticker := .after before }
  | .after before =>
    some { s with ticker := if before = s.shared.waiting then .sleeping else .emit .lifecycle }
  | .emit pc =>
    match pc.next s.shared with
    | .inl pc => some { s with ticker := .emit pc }
    | .inr u => some { s with pushes := s.pushes ++ [.stateChanged u], ticker := .sleeping }
  | .done => none

def createStep : Option StatusSys :=
  match s.creator with
  | .cwd => some { s with creator := .lifecycle s.shared.cwd }
  | .lifecycle cwd => some { s with creator := .waiting cwd s.shared.lifecycle }
  | .waiting cwd l => some { s with creator := .active cwd l s.shared.waiting }
  | .active cwd l waiting =>
    let m := { s.shared.getMeta with cwd := cwd, lifecycle := l, waitingForInput := waiting }
    some { s with creator := .announce m }
  | .announce m => some { s with pushes := s.pushes ++ [.created m], creator := .done }
  | .done => none

def step (s : StatusSys) : StatusAct → Option StatusSys
  | .read chunk =>
    match s.reader with
    | .reading =>
      let r := s.parser.feed chunk
      some { s with parser := r.2, reader := afterEvents false chunk r.1 }
    | _ => none
  | .eof =>
    match s.reader with
    | .reading => some { s with reader := .setInactive }
    | _ => none
  | .reader now g => s.readerStep now g
  | .ticker g => s.tickerStep g
  | .create => s.createStep

/-- A session whose threads have just been started. -/
def started (shared : Shared) : StatusSys :=
  ⟨shared, OscParser.new, .reading, .sleeping, .cwd, []⟩

/-- The client's entry, once it has applied the pushes there were. -/
def shown : Option SessionMeta := s.pushes.foldl SessionPush.applyTo none

/-- Whether the reader is dealing with a chunk for which it will broadcast a status. -/
def statusDue : Bool :=
  match s.reader with
  | .advance _ _ _ => true
  | .record _ _ _ => true
  | .ring _ statusDirty => statusDirty
  | .recompute => true
  | .store _ => true
  | .emit _ => true
  | _ => false

/-- The client has an entry from the announcement on, of a live session, and of the daemon's
lifecycle when no status is due. -/
structure ShowsLive : Prop where
  announced : s.creator = .done → s.shown.isSome
  live : ∀ m ∈ s.shown, m.isActive = true ∧ m.lifecycle.isExited = false
  lifecycle : s.statusDue = false → ∀ m ∈ s.shown, m.lifecycle = s.shared.lifecycle

/-- What the ticker has read of the lifecycle for a status it is about to broadcast. -/
def tickerHolds : Option SessionLifecycle :=
  match s.ticker with
  | .emit pc => pc.read
  | _ => none

/-- Whether a step broadcasts no finished command's lifecycle to a client that has an entry,
announces no finished command's lifecycle and no closed PTY, and broadcasts no status of the reader
past an older one that the ticker or the announcement is about to give. -/
def Settled : StatusAct → Prop
  | .reader _ _ =>
    match s.reader with
    | .emit (.announce u) => (s.creator = .done → u.lifecycle.isExited = false) ∧
      (∀ l ∈ s.tickerHolds, l = u.lifecycle) ∧ ∀ l ∈ s.creator.read, l = u.lifecycle
    | _ => True
  | .ticker _ =>
    match s.ticker with
    | .emit (.announce u) => s.creator = .done → u.lifecycle.isExited = false
    | _ => True
  | .create =>
    match s.creator with
    | .announce m => m.lifecycle.isExited = false ∧ m.isActive = true
    | _ => True
  | _ => True

instance (a : StatusAct) : Decidable (s.Settled a) := by
  unfold Settled
  split
  all_goals first | infer_instance | (split <;> infer_instance)

/-- What the reader has read. -/
def readerHolds : Option SessionLifecycle :=
  match s.reader with
  | .emit pc => pc.read
  | _ => none

/-- `ShowsLive`, with what is on its way: a lifecycle that the ticker or the announcement holds is
the daemon's still, or a status of the reader will follow. -/
structure StatusInv : Prop where
  shows : s.ShowsLive
  unannounced : s.shown.isSome → s.creator = .done
  reader : ∀ l ∈ s.readerHolds, l = s.shared.lifecycle
  ticker : ∀ l ∈ s.tickerHolds, l = s.shared.lifecycle ∨ s.statusDue = true
  creator : ∀ l ∈ s.creator.read, l = s.shared.lifecycle ∨ s.statusDue = true

variable {s} {t : StatusSys} {u : StatusUpdate}

theorem shown_append {p : SessionPush} (h : t.pushes = s.pushes ++ [p]) :
    t.shown = p.applyTo s.shown := by
  rw [shown, h, List.foldl_append]
  rfl

/-- A step that broadcasts nothing: once the lifecycle has changed a status is due, and one that was
due still is. -/
theorem StatusInv.quiet (hI : s.StatusInv) (hpushes : t.pushes = s.pushes)
    (hlifecycle : t.shared.lifecycle = s.shared.lifecycle ∨ t.statusDue = true)
    (hdue : s.statusDue = true → t.statusDue = true)
    (hdone : t.creator = .done ↔ s.creator = .done)
    (hreader : ∀ l ∈ t.readerHolds, l = t.shared.lifecycle)
    (hticker : ∀ l ∈ t.tickerHolds, l ∈ s.tickerHolds ∨ l = t.shared.lifecycle)
    (hcreator : ∀ l ∈ t.creator.read, l ∈ s.creator.read ∨ l = t.shared.lifecycle) :
    t.StatusInv := by
  have hshown : t.shown = s.shown := by
    unfold shown
    rw [hpushes]
  have hheld : ∀ l, l = s.shared.lifecycle ∨ s.statusDue = true →
      l = t.shared.lifecycle ∨ t.statusDue = true := by
    rintro l (rfl | h)
    · exact hlifecycle.imp_left Eq.symm
    · exact .inr (hdue h)
  refine ⟨⟨fun h => ?_, ?_, fun h m hm => ?_⟩, fun h => ?_, hreader, fun l hl => ?_, fun l hl => ?_⟩
  · rw [hshown]
    exact hI.shows.announced (hdone.1 h)
  · rw [hshown]
    exact hI.shows.live
  · rw [hshown] at hm
    have hundue : s.statusDue = false := by
      by_contra hs
      rw [hdue (by simpa using hs)] at h
      cases h
    rw [hI.shows.lifecycle hundue m hm]
    exact (hlifecycle.resolve_right (by simp [h])).symm
  · rw [hshown] at h
    exact hdone.2 (hI.unannounced h)
  · exact (hticker l hl).elim (fun h => hheld l (hI.ticker l h)) .inl
  · exact (hcreator l hl).elim (fun h => hheld l (hI.creator l h)) .inl

/-- A status that is the daemon's lifecycle, or that another will follow, is broadcast. -/
theorem StatusInv.announce (hI : s.StatusInv) (hpushes : t.pushes = s.pushes ++ [.stateChanged u])
    (hshared : t.shared = s.shared) (hcreator : t.creator = s.creator)
    (hlive : s.creator = .done → u.lifecycle.isExited = false)
    (hu : u.lifecycle = s.shared.lifecycle ∨ t.statusDue = true)
    (hreader : ∀ l ∈ t.readerHolds, l = s.shared.lifecycle)
    (hticker : ∀ l ∈ t.tickerHolds, l = s.shared.lifecycle ∨ t.statusDue = true)
    (hheld : ∀ l ∈ s.creator.read, l = s.shared.lifecycle ∨ t.statusDue = true) :
    t.StatusInv := by
  have hshown : t.shown = s.shown.map (·.setLifecycle u) := shown_append hpushes
  have hentry : ∀ m ∈ t.shown, m.isActive = true ∧ m.lifecycle.isExited = false ∧
      m.lifecycle = u.lifecycle := by
    intro m hm
    rw [hshown] at hm
    obtain ⟨m', hm', rfl⟩ := Option.map_eq_some_iff.1 hm
    have hdone := hI.unannounced (Option.isSome_iff_exists.2 ⟨m', hm'⟩)
    rw [SessionMeta.setLifecycle, (hI.shows.live m' hm').2]
    simp [hlive hdone]
  refine ⟨⟨fun h => ?_, fun m hm => ⟨(hentry m hm).1, (hentry m hm).2.1⟩, fun h m hm => ?_⟩,
    fun h => ?_, ?_, ?_, ?_⟩
  · rw [hshown, Option.isSome_map]
    exact hI.shows.announced (hcreator ▸ h)
  · rw [(hentry m hm).2.2, hshared]
    exact hu.resolve_right (by simp [h])
  · rw [hshown, Option.isSome_map] at h
    rw [hcreator]
    exact hI.unannounced h
  · rwa [hshared]
  · rwa [hshared]
  · rwa [hshared, hcreator]

theorem afterEvents_due (chunk : List UInt8) (evs : List OscEvent) (h : t.reader =
    afterEvents true chunk evs) : t.statusDue = true := by
  cases evs <;> simp [statusDue, h, afterEvents]

theorem readerHolds_eq_none (h : ∀ pc, s.reader ≠ .emit pc) : s.readerHolds = none := by
  unfold readerHolds
  split
  · exact absurd ‹_› (h _)
  · rfl

theorem afterEvents_ne_emit (b : Bool) (chunk : List UInt8) (evs : List OscEvent) (pc : EmitPc) :
    afterEvents b chunk evs ≠ .emit pc := by
  cases evs <;> simp [afterEvents]

/-- The status that is about to be read is read a field further. -/
theorem EmitPc.read_next {sh : Shared} {pc pc' : EmitPc} (h : pc.next sh = .inl pc') :
    ∀ l ∈ pc'.read, l ∈ pc.read ∨ l = sh.lifecycle := by
  cases pc <;> cases h <;> simp [EmitPc.read]

theorem EmitPc.announce_of_next {sh : Shared} {pc : EmitPc} {u : StatusUpdate}
    (h : pc.next sh = .inr u) : pc = .announce u := by
  cases pc <;> cases h
  rfl

theorem record_lifecycle (sh : Shared) (ev : OscEvent) (now : Int) :
    (sh.record ev now).lifecycle = sh.lifecycle := by
  cases ev <;> rfl

/-- A step of the reader that broadcasts nothing and is not between the fields of a status. -/
theorem StatusInv.readerQuiet (hI : s.StatusInv) {sh : Shared} {r : StatusReaderPc}
    (hemit : ∀ pc, r ≠ .emit pc)
    (hlifecycle : sh.lifecycle = s.shared.lifecycle ∨
      statusDue { s with shared := sh, reader := r } = true)
    (hdue : s.statusDue = true → statusDue { s with shared := sh, reader := r } = true) :
    StatusInv { s with shared := sh, reader := r } := by
  refine hI.quiet rfl hlifecycle hdue Iff.rfl (fun l hl => ?_) (fun l hl => .inl hl)
    fun l hl => .inl hl
  rw [readerHolds_eq_none hemit] at hl
  cases hl

theorem statusInv_readerStep {now : Int} {g : Signals} (hI : s.StatusInv)
    (hsettled : s.Settled (.reader now g)) (h : s.readerStep now g = some t) : t.StatusInv := by
  unfold readerStep at h
  cases hpc : s.reader with
  | advance ev evs chunk =>
    rw [hpc] at h
    cases h
    exact hI.readerQuiet (by simp) (.inr rfl) fun _ => rfl
  | record ev evs chunk =>
    rw [hpc] at h
    cases h
    exact hI.readerQuiet (afterEvents_ne_emit true chunk evs) (.inl (record_lifecycle _ _ _))
      fun _ => afterEvents_due chunk evs rfl
  | ring chunk dirty =>
    rw [hpc] at h
    cases h
    cases dirty
    · exact hI.readerQuiet (by simp) (.inl rfl) fun h => by simp [statusDue, hpc] at h
    · exact hI.readerQuiet (by simp) (.inl rfl) fun _ => rfl
  | recompute =>
    rw [hpc] at h
    cases h
    exact hI.readerQuiet (by simp) (.inl rfl) fun _ => rfl
  | store =>
    rw [hpc] at h
    cases h
    exact hI.quiet rfl (.inl rfl) (fun _ => rfl) Iff.rfl (fun _ h => by cases h)
      (fun l hl => .inl hl) fun l hl => .inl hl
  | emit pc =>
    rw [hpc] at h
    have hholds : s.readerHolds = pc.read := by
      unfold readerHolds
      rw [hpc]
    rcases hnext : pc.next s.shared with pc' | u
    · simp only [hnext, Option.some.injEq] at h
      subst h
      refine hI.quiet rfl (.inl rfl) (fun _ => rfl) Iff.rfl (fun l hl => ?_) (fun l hl => .inl hl)
        fun l hl => .inl hl
      exact (EmitPc.read_next hnext l hl).elim (fun h => hI.reader l (hholds ▸ h)) id
    · simp only [hnext, Option.some.injEq] at h
      subst h
      obtain rfl := EmitPc.announce_of_next hnext
      have hu : u.lifecycle = s.shared.lifecycle := hI.reader _ (by rw [hholds]; rfl)
      -- none that the ticker or the announcement holds is older
      obtain ⟨hlive, hticker, hcreator⟩ : (s.creator = .done → u.lifecycle.isExited = false) ∧
          (∀ l ∈ s.tickerHolds, l = u.lifecycle) ∧ ∀ l ∈ s.creator.read, l = u.lifecycle := by
        simpa only [Settled, hpc] using hsettled
      exact hI.announce rfl rfl rfl hlive (.inl hu) (fun _ h => by cases h)
        (fun l hl => .inl ((hticker l hl).trans hu)) fun l hl => .inl ((hcreator l hl).trans hu)
  | setInactive =>
    rw [hpc] at h
    cases h
    exact hI.readerQuiet (by simp) (.inl rfl) fun h => by simp [statusDue, hpc] at h
  | reading | done =>
    rw [hpc] at h
    cases h

theorem statusInv_tickerStep {g : Signals} (hI : s.StatusInv) (hsettled : s.Settled (.ticker g))
    (h : s.tickerStep g = some t) : t.StatusInv := by
  have hquiet : ∀ {k : StatusTickerPc} {sh : Shared}, (∀ pc, k = .emit pc → pc = .lifecycle) →
      sh.lifecycle = s.shared.lifecycle → StatusInv { s with shared := sh, ticker := k } := by
    intro k sh hemit hsh
    refine hI.quiet rfl (.inl hsh) id Iff.rfl (fun l hl => (hI.reader l hl).trans hsh.symm)
      (fun l hl => ?_) fun l hl => .inl hl
    unfold tickerHolds at hl
    dsimp only at hl
    split at hl
    · rw [hemit _ rfl] at hl
      cases hl
    · cases hl
  unfold tickerStep at h
  cases hpc : s.ticker with
  | sleeping | before | recompute | store =>
    rw [hpc] at h
    cases h
    exact hquiet (by simp) rfl
  | checkActive =>
    rw [hpc] at h
    cases h
    refine hquiet ?_ rfl
    split_ifs <;> simp
  | after =>
    rw [hpc] at h
    cases h
    refine hquiet ?_ rfl
    split_ifs <;> simp
  | emit pc =>
    rw [hpc] at h
    have hholds : s.tickerHolds = pc.read := by
      unfold tickerHolds
      rw [hpc]
    rcases hnext : pc.next s.shared with pc' | u
    · simp only [hnext, Option.some.injEq] at h
      subst h
      refine hI.quiet rfl (.inl rfl) id Iff.rfl hI.reader (fun l hl => ?_) fun l hl => .inl hl
      exact (EmitPc.read_next hnext l hl).imp_left fun h => hholds ▸ h
    · simp only [hnext, Option.some.injEq] at h
      subst h
      obtain rfl := EmitPc.announce_of_next hnext
      exact hI.announce rfl rfl rfl (by simpa only [Settled, hpc] using hsettled)
        (hI.ticker _ (by rw [hholds]; rfl)) hI.reader (fun _ h => by cases h) hI.creator
  | done =>
    rw [hpc] at h
    cases h

theorem statusInv_createStep (hI : s.StatusInv) (hsettled : s.Settled .create)
    (h : s.createStep = some t) : t.StatusInv := by
  have hquiet : ∀ {pc : AnnouncePc}, pc ≠ .done → s.creator ≠ .done →
      (∀ l ∈ pc.read, l ∈ s.creator.read ∨ l = s.shared.lifecycle) →
      StatusInv { s with creator := pc } := fun hpc hs hread =>
    hI.quiet rfl (.inl rfl) id (iff_of_false hpc hs) hI.reader (fun l hl => .inl hl) hread
  unfold createStep at h
  cases hpc : s.creator with
  | cwd | lifecycle | waiting | active =>
    rw [hpc] at h
    cases h
    refine hquiet (by simp) (by simp [hpc]) ?_
    simp [AnnouncePc.read, hpc]
  | announce m =>
    rw [hpc] at h
    cases h
    obtain ⟨hlive, hactive⟩ : m.lifecycle.isExited = false ∧ m.isActive = true := by
      simpa only [Settled, hpc] using hsettled
    have hm := hI.creator m.lifecycle (by rw [hpc]; rfl)
    have hshown : shown { s with
        pushes := s.pushes ++ [.created m]
        creator := .done } = some m := by
      rw [shown_append rfl]
      rfl
    refine ⟨⟨fun _ => by rw [hshown]; rfl, fun m' hm' => ?_, fun hdue m' hm' => ?_⟩, fun _ => rfl,
      hI.reader, hI.ticker, fun _ h => by cases h⟩
    · obtain rfl : m = m' := Option.some.inj (hshown.symm.trans hm')
      exact ⟨hactive, hlive⟩
    · obtain rfl : m = m' := Option.some.inj (hshown.symm.trans hm')
      exact hm.resolve_right (by rw [show s.statusDue = false from hdue]; simp)
  | done =>
    rw [hpc] at h
    cases h

theorem statusInv_step {a : StatusAct} (hI : s.StatusInv) (hsettled : s.Settled a)
    (h : s.step a = some t) : t.StatusInv := by
  cases a with
  | read chunk =>
    unfold step at h
    dsimp only at h
    split at h
    · rename_i hpc
      cases h
      refine hI.quiet rfl (.inl rfl) (fun h => ?_) Iff.rfl (fun l hl => ?_) (fun l hl => .inl hl)
        fun l hl => .inl hl
      · simp [statusDue, hpc] at h
      · rw [readerHolds_eq_none (afterEvents_ne_emit false _ _)] at hl
        cases hl
    · cases h
  | eof =>
    unfold step at h
    dsimp only at h
    split at h
    · rename_i hpc
      cases h
      exact hI.readerQuiet (by simp) (.inl rfl) fun h => by simp [statusDue, hpc] at h
    · cases h
  | reader now g => exact statusInv_readerStep hI hsettled h
  | ticker g => exact statusInv_tickerStep hI hsettled h
  | create => exact statusInv_createStep hI hsettled h

theorem statusInv_started (shared : Shared) : (started shared).StatusInv :=
  ⟨⟨(fun h => by cases h), (fun _ h => by cases h), fun _ _ h => by cases h⟩,
    (fun h => by cases h), (fun _ h => by cases h), (fun _ h => by cases h), fun _ h => by cases h⟩

/-- While a session's child lives, however its bytes come and the threads run, the client shows it
live from its announcement on, and with the daemon's lifecycle when no status is due, as long as no
status is broadcast and no session announced between a command's end and the next mark, and none is
overtaken by the reader. -/
theorem shown_of_settled {shared : Shared} {as : List StatusAct}
    (hsettled : Runs.Along step Settled (started shared) as)
    (hr : Runs.run step (started shared) as = some t) : t.ShowsLive :=
  (hsettled.keeps (fun _ _ _ hI hC h => statusInv_step hI hC h) (statusInv_started shared) hr).shows

/-- A mark of the shell integration. -/
def mark (body : List Char) : List UInt8 :=
  ascii (['\x1B', ']', '1', '3', '3', ';'] ++ body ++ ['\x07'])

def commandEnds : List UInt8 := mark ['D', ';', '0']

def promptDrawn : List UInt8 := mark ['A'] ++ mark ['B']

/-- A chunk is read and dealt with. -/
def reads (chunk : List UInt8) (n : ℕ) : List StatusAct :=
  .read chunk :: List.replicate n (.reader 0 ⟨false, false, false, false⟩)

def plainSession : Shared := freshShared "s" "w" "" "/bin/zsh" "/" 80 24 0

def announces : List StatusAct := List.replicate 5 .create

/-- The chunk ends with the command, and the prompt comes in the next one. -/
theorem finished_command_shown_exited : ∃ t,
    Runs.run step (started plainSession)
        (announces ++ reads commandEnds 9 ++ reads promptDrawn 11) = some t
      ∧ t.reader = .reading ∧ t.shared.lifecycle = .atPrompt
      ∧ t.shown.map (fun m => (m.lifecycle, m.isActive)) = some (.exited (some 0) none, false) := by
  refine ⟨_, rfl, ?_, ?_, ?_⟩ <;> decide +kernel

theorem shown_of_settled_oneChunk : ∃ t,
    Runs.run step (started plainSession)
        (announces ++ reads (commandEnds ++ promptDrawn) 13) = some t
      ∧ t.pushes.length = 2 ∧ t.ShowsLive := by
  refine ⟨_, rfl, by decide +kernel, ?_⟩
  exact @shown_of_settled _ plainSession (announces ++ reads (commandEnds ++ promptDrawn) 13)
    (by decide +kernel) rfl

end StatusSys

end BuilderPro
