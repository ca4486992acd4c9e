import BuilderPro.Lib.Runs

/-!
# Updating the daemon

`lib.rs` and `launchd.rs`: a bring-up makes sure that a daemon runs and then restarts it by force if
a marker file names another version than the app's.  The marker says which version has been brought
up last, not which one runs; what a history must keep so that the two agree is `Careful`
(`launches_honest`).
-/

namespace BuilderPro

/-- `launchd`'s service, the app bundle and the marker file. -/
structure DaemonHost where
  /-- The version of the app bundle: what is launched next, and the daemon that starts next. -/
  bundle : String
  loaded : Bool
  /-- The version the running daemon was started from. -/
  running : Option String
  /-- The text of the marker file, trimmed. -/
  marker : Option String
  deriving DecidableEq, Repr

/-- How the calls of one bring-up end. -/
structure BringUp where
  installAgent : Bool
  bootstrap : Bool
  kickstart : Bool
  appDataDir : Bool
  readMarker : Bool
  kickstartForce : Bool
  /-- What the marker file holds after it was written. -/
  written : Option String
  deriving DecidableEq, Repr

namespace DaemonHost

variable (s : DaemonHost)

/-- `launchctl kickstart`: nothing for a daemon that runs. -/
def kickstart : DaemonHost :=
  match s.running with
  | none => { s with running := some s.bundle }
  | some _ => s

/-- `launchctl kickstart -k`. -/
def kickstartForce : DaemonHost := { s with running := some s.bundle }

/-- Whether every call went well, and the service then. -/
def ensureDaemonRunning (o : BringUp) : Bool × DaemonHost :=
  if !o.installAgent || !o.bootstrap then (false, s)
  else if !o.kickstart then (false, { s with loaded := true })
  else (true, ({ s with loaded := true } : DaemonHost).kickstart)

/-- The service after a reconcile, and the version of the daemon it restarted by force. -/
def reconcileDaemonVersion (o : BringUp) : DaemonHost × Option String :=
  let current := s.bundle
  let onDisk := if o.readMarker then s.marker else none
  match onDisk with
  | none => ({ s with marker := o.written }, none)
  | some v =>
    if v = current then (s, none)
    else if o.kickstartForce then ({ s.kickstartForce with marker := o.written }, s.running)
    else (s, none)

def bringUpDaemon (o : BringUp) : DaemonHost × Option String :=
  match s.ensureDaemonRunning o with
  | (false, s) => (s, none)
  | (true, s) => if o.appDataDir then s.reconcileDaemonVersion o else (s, none)

end DaemonHost

inductive HostStep
  /-- The app bundle is replaced. -/
  | install (version : String)
  | launch (o : BringUp)
  /-- `upgrade_daemon_core`: the daemon may have drained and gone, and the call may fail. -/
  | upgradeDaemon (drained kickstartForce : Bool)
  | reboot (loaded : Bool)
  /-- The daemon crashes; `launchd` may start it again. -/
  | crash (restarted : Bool)
  deriving DecidableEq, Repr

namespace DaemonHost

def upgradeDaemon (s : DaemonHost) (drained kickstartForce : Bool) : DaemonHost :=
  if s.loaded && kickstartForce then s.kickstartForce
  else if drained then { s with running := none }
  else s

def step (s : DaemonHost) : HostStep → Option DaemonHost
  | .install version => some { s with bundle := version }
  | .launch o => some (s.bringUpDaemon o).1
  | .upgradeDaemon drained kickstartForce => some (s.upgradeDaemon drained kickstartForce)
  | .reboot loaded => some { s with loaded := loaded, running := none }
  | .crash restarted =>
    match s.running with
    | none => none
    | some _ => some { s with running := if restarted then some s.bundle else none }

/-- Every call of a bring-up goes well. -/
def AllWell (s : DaemonHost) (o : BringUp) : Prop :=
  o.installAgent ∧ o.bootstrap ∧ o.kickstart ∧ o.appDataDir ∧ o.readMarker ∧ o.kickstartForce ∧
    o.written = some s.bundle

/-- A bring-up leaves no daemon of another version behind, if its calls go well, and restarts none
of its own by force. -/
def Honest (s : DaemonHost) : HostStep → Prop
  | .launch o =>
    (s.AllWell o → (s.bringUpDaemon o).1.running = some s.bundle) ∧
      (s.bringUpDaemon o).2 ≠ some s.bundle
  | _ => True

instance (s : DaemonHost) (o : BringUp) : Decidable (s.AllWell o) :=
  inferInstanceAs (Decidable (_ ∧ _ ∧ _ ∧ _ ∧ _ ∧ _ ∧ _))

instance (s : DaemonHost) : (a : HostStep) → Decidable (s.Honest a)
  | .launch _ => inferInstanceAs (Decidable ((_ → _) ∧ _))
  | .install _ | .upgradeDaemon _ _ | .reboot _ | .crash _ => inferInstanceAs (Decidable True)

/-- The marker file is missing or names the version of the bundle. -/
def MarkerFits (s : DaemonHost) : Prop := s.marker = none ∨ s.marker = some s.bundle

instance (s : DaemonHost) : Decidable s.MarkerFits := inferInstanceAs (Decidable (_ ∨ _))

end DaemonHost

/-- The bring-up gets as far as the marker. -/
def BringUp.reconciles (o : BringUp) : Bool :=
  o.installAgent && o.bootstrap && o.kickstart && o.appDataDir

namespace DaemonHost

/-- While a daemon of another version runs, the marker file is there and is read. -/
def ReadsOther (s : DaemonHost) (o : BringUp) : Prop :=
  ∀ d ∈ s.running, d ≠ s.bundle → o.reconciles → o.readMarker ∧ s.marker ≠ none

/-- A daemon is started while the marker fits, or is not read. -/
def StartsFitting (s : DaemonHost) (o : BringUp) : Prop :=
  s.running = none → o.installAgent → o.bootstrap → o.kickstart →
    s.MarkerFits ∨ o.appDataDir ∧ ¬ o.readMarker

instance (s : DaemonHost) (o : BringUp) : Decidable (s.ReadsOther o) :=
  inferInstanceAs (Decidable (∀ d ∈ s.running, _ → _ → _))

instance (s : DaemonHost) (o : BringUp) : Decidable (s.StartsFitting o) :=
  inferInstanceAs (Decidable (_ → _ → _ → _ → _))

/-- What keeps the marker right about the daemon: each bring-up does, its write leaves the version
it has brought up or no file, and no daemon is started between an update and its bring-up. -/
def Careful (s : DaemonHost) : HostStep → Prop
  | .launch o =>
    s.ReadsOther o ∧ s.StartsFitting o ∧ (o.written = none ∨ o.written = some s.bundle)
  | .upgradeDaemon _ kickstartForce => s.loaded → kickstartForce → s.MarkerFits
  | .crash restarted => restarted → s.MarkerFits
  | _ => True

instance (s : DaemonHost) : (a : HostStep) → Decidable (s.Careful a)
  | .launch _ => inferInstanceAs (Decidable (_ ∧ _ ∧ _))
  | .upgradeDaemon _ _ => inferInstanceAs (Decidable (_ → _ → _))
  | .crash _ => inferInstanceAs (Decidable (_ → _))
  | .install _ | .reboot _ => inferInstanceAs (Decidable True)

/-- The marker is missing, or names the version of the daemon that runs. -/
def Agrees (s : DaemonHost) : Prop := ∀ d, s.running = some d → s.marker = none ∨ s.marker = some d

variable {s t : DaemonHost} {o : BringUp}

/-- What a bring-up reads of the marker. -/
def seen (s : DaemonHost) (o : BringUp) : Option String := if o.readMarker then s.marker else none

theorem seen_fits (h : s.MarkerFits ∨ ¬ o.readMarker) :
    s.seen o = none ∨ s.seen o = some s.bundle := by
  rw [seen]
  split_ifs with hread
  · exact h.resolve_right (not_not.2 hread)
  · exact .inl rfl

/-- A reconcile that reads right what daemon runs leaves the marker right. -/
theorem reconcile_kept {d : String} (hrun : s.running = some d)
    (hown : d = s.bundle → s.seen o = none ∨ s.seen o = some s.bundle)
    (hother : d ≠ s.bundle → s.seen o = some d)
    (hwritten : o.written = none ∨ o.written = some s.bundle) :
    (s.reconcileDaemonVersion o).1.Agrees ∧ (s.reconcileDaemonVersion o).2 ≠ some s.bundle ∧
      (o.kickstartForce → (s.reconcileDaemonVersion o).1.running = some s.bundle) := by
  have hread : ∀ v, s.seen o = some v → s.marker = some v := by
    intro v hv
    rw [seen] at hv
    split_ifs at hv
    exact hv
  have hreconcile : s.reconcileDaemonVersion o = match s.seen o with
      | none => ({ s with marker := o.written }, none)
      | some v =>
        if v = s.bundle then (s, none)
        else if o.kickstartForce then ({ s.kickstartForce with marker := o.written }, s.running)
        else (s, none) := rfl
  rw [hreconcile]
  by_cases hd : d = s.bundle
  · subst hd
    rcases hown rfl with hseen | hseen
    · rw [hseen]
      refine ⟨fun d' hd' => ?_, by simp, fun _ => hrun⟩
      cases hrun.symm.trans hd'
      exact hwritten
    · rw [hseen]
      simp only [if_true]
      refine ⟨fun d' hd' => ?_, by simp, fun _ => hrun⟩
      cases hrun.symm.trans hd'
      exact .inr (hread _ hseen)
  · have hseen := hother hd
    rw [hseen]
    simp only [if_neg hd]
    split_ifs with hforce
    · refine ⟨fun d' hd' => ?_, ?_, fun _ => rfl⟩
      · cases hd'
        exact hwritten
      · rw [hrun, ne_eq, Option.some.injEq]
        exact hd
    · refine ⟨fun d' hd' => ?_, by simp, fun hforce' => absurd hforce' hforce⟩
      cases hrun.symm.trans hd'
      exact .inr (hread _ hseen)

/-- The three ways the first part of a bring-up ends. -/
theorem ensureDaemonRunning_cases (s : DaemonHost) (o : BringUp) :
    ((¬ o.installAgent ∨ ¬ o.bootstrap ∨ ¬ o.kickstart) ∧ ∃ loaded,
      s.ensureDaemonRunning o = (false, { s with loaded := loaded })) ∨
    ((o.installAgent ∧ o.bootstrap ∧ o.kickstart) ∧ s.ensureDaemonRunning o
      = (true, { s with loaded := true, running := some (s.running.getD s.bundle) })) := by
  rw [ensureDaemonRunning]
  by_cases hinstall : o.installAgent
  · by_cases hbootstrap : o.bootstrap
    · by_cases hkickstart : o.kickstart
      · refine .inr ⟨⟨hinstall, hbootstrap, hkickstart⟩, ?_⟩
        simp only [hinstall, hbootstrap, hkickstart, kickstart]
        rcases s.running with _ | d <;> rfl
      · exact .inl ⟨.inr (.inr hkickstart), true, by simp [hinstall, hbootstrap, hkickstart]⟩
    · exact .inl ⟨.inr (.inl hbootstrap), s.loaded, by simp [hbootstrap]⟩
  · exact .inl ⟨.inl hinstall, s.loaded, by simp [hinstall]⟩

theorem launch_kept (h : s.Agrees) (hc : s.Careful (.launch o)) :
    (s.bringUpDaemon o).1.Agrees ∧ s.Honest (.launch o) := by
  obtain ⟨hother, hstart, hwritten⟩ := hc
  rcases ensureDaemonRunning_cases s o with ⟨hfail, loaded, hensure⟩ | ⟨hwell, hensure⟩
  · have hbring : s.bringUpDaemon o = ({ s with loaded := loaded }, none) := by
      rw [bringUpDaemon, hensure]
    rw [hbring, Honest, hbring]
    refine ⟨h, fun hall => ?_, by simp⟩
    obtain ⟨hi, hb, hk, -⟩ := hall
    tauto
  obtain ⟨hinstall, hbootstrap, hkickstart⟩ := hwell
  by_cases hdir : o.appDataDir
  swap
  · -- the marker is not looked at
    have hbring : s.bringUpDaemon o
        = ({ s with loaded := true, running := some (s.running.getD s.bundle) }, none) := by
      rw [bringUpDaemon, hensure]
      simp only [if_neg hdir]
    rw [hbring, Honest, hbring]
    refine ⟨fun d hd => ?_, fun hall => absurd hall.2.2.2.1 hdir, by simp⟩
    cases hd
    rcases hrun : s.running with _ | d
    · exact (hstart hrun hinstall hbootstrap hkickstart).resolve_right fun hno => hdir hno.1
    · exact h d hrun
  set u : DaemonHost := { s with loaded := true, running := some (s.running.getD s.bundle) } with hu
  have hbring : s.bringUpDaemon o = u.reconcileDaemonVersion o := by
    rw [bringUpDaemon, hensure]
    simp only [if_pos hdir]
  have hfits : ∀ d, u.running = some d →
      (d = u.bundle → u.seen o = none ∨ u.seen o = some u.bundle) ∧
      (d ≠ u.bundle → u.seen o = some d) := by
    intro d hd
    obtain rfl : s.running.getD s.bundle = d := Option.some.inj hd
    rcases hrun : s.running with _ | d
    · refine ⟨fun _ => seen_fits ?_, fun hne => absurd rfl hne⟩
      exact (hstart hrun hinstall hbootstrap hkickstart).imp_right And.right
    · refine ⟨fun heq => seen_fits (.inl ?_), fun hne => ?_⟩
      · rcases h d hrun with hnone | hsome
        · exact .inl hnone
        · exact .inr (hsome.trans (congrArg some heq))
      · obtain ⟨hread, hmarker⟩ := hother d hrun hne
          (by simp [BringUp.reconciles, hinstall, hbootstrap, hkickstart, hdir])
        rw [seen, if_pos hread]
        exact (h d hrun).resolve_left hmarker
  obtain ⟨hown, hother'⟩ := hfits _ rfl
  obtain ⟨hagrees, hkilled, hforced⟩ := reconcile_kept (s := u) rfl hown hother' hwritten
  rw [hbring, Honest, hbring]
  exact ⟨hagrees, fun hall => hforced hall.2.2.2.2.2.1, hkilled⟩

theorem agrees_step {a : HostStep} (h : s.Agrees) (hc : s.Careful a) (ht : s.step a = some t) :
    t.Agrees ∧ s.Honest a := by
  cases a with
  | install version =>
    cases ht
    exact ⟨h, trivial⟩
  | launch o =>
    cases ht
    exact launch_kept h hc
  | upgradeDaemon drained kickstartForce =>
    cases ht
    refine ⟨fun d hd => ?_, trivial⟩
    rw [upgradeDaemon] at hd ⊢
    split_ifs at hd ⊢ with hforce hdrained
    · rw [Bool.and_eq_true] at hforce
      cases hd
      exact hc hforce.1 hforce.2
    · exact h d hd
  | reboot loaded =>
    cases ht
    exact ⟨fun _ hd => (by cases hd), trivial⟩
  | crash restarted =>
    rcases hrun : s.running with _ | d₀
    · simp only [step, hrun] at ht
      cases ht
    · simp only [step, hrun] at ht
      cases ht
      refine ⟨fun d hd => ?_, trivial⟩
      have hd : (if restarted then some s.bundle else none) = some d := hd
      split_ifs at hd with hrestarted
      cases hd
      exact hc hrestarted

/-- In every history that starts without a marker file, whatever daemon runs, and whose steps are
careful, every bring-up is honest. -/
theorem launches_honest (bundle : String) (loaded : Bool) (running : Option String)
    (as : List HostStep)
    (hc : Runs.Along step Careful ⟨bundle, loaded, running, none⟩ as) :
    Runs.Along step Honest ⟨bundle, loaded, running, none⟩ as := by
  have h : Agrees ⟨bundle, loaded, running, none⟩ := fun _ _ => .inl rfl
  exact hc.imp_of_kept (fun s a t hs hc ht => agrees_step hs hc ht) h

/-- A bring-up whose calls all go well. -/
def well (version : String) : BringUp := ⟨true, true, true, true, true, true, some version⟩

/-- A first launch, an update, a crash and a downgrade. -/
def updateRun : List HostStep :=
  [.launch (well "0.9.0"), .install "0.10.0", .launch (well "0.10.0"), .crash true,
    .install "0.9.0", .launch (well "0.9.0")]

theorem launches_honest_updateRun :
    Runs.Along step Honest ⟨"0.9.0", false, none, none⟩ updateRun :=
  launches_honest _ _ _ _ (by decide +kernel)

/-- A daemon of an older version is loaded and runs, and there is no marker file: the first
bring-up, whose calls all go well, leaves it running.  And past a reboot behind an update: the
bring-up starts the daemon from the new bundle and then restarts it by force. -/
theorem stale_kept_new_killed :
    ¬ Runs.Along step Honest ⟨"0.10.0", true, some "0.9.0", none⟩ [.launch (well "0.10.0")] ∧
    ¬ Runs.Along step Honest ⟨"0.9.0", false, none, none⟩
      [.launch (well "0.9.0"), .install "0.10.0", .reboot true, .launch (well "0.10.0")] := by
  decide +kernel

end DaemonHost

end BuilderPro
