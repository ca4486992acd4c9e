import BuilderPro.Orchd.RunDrivers

/-!
# Research runs settle

A run's row and its driver move in step (`DriverInv`), whatever goes on around them, so a run only
moves forward, and one that is done has what its own call has brought.  It is left behind by the
statements that fail with nothing to write down that they have (`Recorded`), and by no others
(`research_runs_settle`).
-/

namespace BuilderPro

open Results

namespace ResearchSys

variable {host : ExtHost} {s s' : ResearchSys}

/-- From one state to the next a run's status stays or goes on. -/
def RunsForward (s t : ResearchSys) : Prop :=
  ∀ id r r', s.runs.lookup id = some r → t.runs.lookup id = some r' →
    r.status.Follows r'.status

/-- A run that nothing drives is settled. -/
def Settled (s : ResearchSys) : Prop :=
  ∀ id r, s.runs.lookup id = some r → ¬s.Driven id → r.status.settled = true

structure Honest (s : ResearchSys) : Prop where
  made {id : String} {r : ResearchRunRow} (hr : s.runs.lookup id = some r) (hs : r.status = .done) :
    ∃ x y, s.MadeBy r x y ∧ r.invocationId = some x.id ∧ r.artifactId = some y.id
  single {id id' art : String} {r r' : ResearchRunRow} (hr : s.runs.lookup id = some r)
    (hr' : s.runs.lookup id' = some r') (h : r.artifactId = some art)
    (h' : r'.artifactId = some art) : id = id'
  settled : s.Settled

/-- An artifact is of the one run whose call has made it. -/
theorem DriverInv.honest (h : s.DriverInv) : s.Honest ↔ s.Settled := by
  refine ⟨Honest.settled, fun hs => ⟨fun hr => (h.row hr).made, ?_, hs⟩⟩
  intro id id' art r r' hr hr' ha ha'
  obtain ⟨x, y, hm, -, hy⟩ := (h.row hr).made ((h.row hr).artifact (by simp [ha]))
  obtain ⟨x', y', hm', -, hy'⟩ := (h.row hr').made ((h.row hr').artifact (by simp [ha']))
  have heq : y.id = y'.id := by
    rw [ha] at hy
    rw [ha'] at hy'
    exact (Option.some.inj hy).symm.trans (Option.some.inj hy')
  have hyy : y = y' := by
    have hlookup := hm.artifact
    rw [heq, hm'.artifact] at hlookup
    exact (Option.some.inj hlookup).symm
  have hrun := hm.run.symm.trans ((congrArg McpArtifact.run hyy).trans hm'.run)
  rw [← KeyedTable.key_eq hr, ← KeyedTable.key_eq hr']
  exact Option.some.inj hrun

namespace Drives

variable {i : ℕ} {t : Task} {id : String} {c : ToolCall} {pc : Pc}
  {f : ResearchRunRow → ResearchRunRow}

theorem driven_ne (hd : s.Drives s' i t id c pc f) {id' : String} (hne : id' ≠ id) :
    s'.Driven id' ↔ s.Driven id' := by
  obtain ⟨t', hjob, hpc, htasks⟩ := hd.tasks
  have hid : t.job.runId? = some id := Job.runId?_eq_some.2 ⟨c, hd.job⟩
  constructor
  · rintro ⟨j, u, hu, hrun, hlive⟩
    rw [htasks, Slots.getElem?_set hd.hi] at hu
    split_ifs at hu with hj
    · obtain rfl := Option.some.inj hu
      rw [hjob, hid] at hrun
      exact absurd (Option.some.inj hrun).symm hne
    · exact ⟨j, u, hu, hrun, hlive⟩
  · rintro ⟨j, u, hu, hrun, hlive⟩
    have hj : j ≠ i := by
      rintro rfl
      obtain rfl : t = u := Option.some.inj (hd.hi.symm.trans hu)
      rw [hid] at hrun
      exact hne (Option.some.inj hrun).symm
    refine ⟨j, u, ?_, hrun, hlive⟩
    rw [htasks, Slots.getElem?_set hd.hi, if_neg hj]
    exact hu

theorem driven (h : s.DriverInv) (hd : s.Drives s' i t id c pc f) :
    s'.Driven id ↔ pc.live = true := by
  obtain ⟨t', hjob, hpc, htasks⟩ := hd.tasks
  have hid : t.job.runId? = some id := Job.runId?_eq_some.2 ⟨c, hd.job⟩
  constructor
  · rintro ⟨j, u, hu, hrun, hlive⟩
    rw [htasks, Slots.getElem?_set hd.hi] at hu
    split_ifs at hu with hj
    · obtain rfl := Option.some.inj hu
      exact hpc ▸ hlive
    · exact absurd (h.single hu hd.hi hrun hid) hj
  · intro hlive
    refine ⟨i, t', ?_, hjob ▸ hid, hpc ▸ hlive⟩
    rw [htasks, Slots.getElem?_set hd.hi, if_pos rfl]

/-- A driver's step leaves its run settled, or goes on driving it. -/
theorem settled_iff (h : s.DriverInv) (hs : s.Settled) (hd : s.Drives s' i t id c pc f) :
    s'.Settled ↔ ∀ r, s.runs.lookup id = some r → pc.live = false → (f r).status.settled = true := by
  constructor
  · intro hs' r hr hover
    refine hs' id (f r) ?_ ?_
    · rw [hd.runs, if_pos rfl, hr, Option.map_some]
    · rw [hd.driven h, hover]
      simp
  · intro hown id' r' hr' hdriven
    by_cases hne : id' = id
    · subst hne
      rw [hd.runs, if_pos rfl, Option.map_eq_some_iff] at hr'
      obtain ⟨r, hr, rfl⟩ := hr'
      rw [hd.driven h, Bool.not_eq_true] at hdriven
      exact hown r hr hdriven
    · rw [hd.runs, if_neg hne] at hr'
      rw [hd.driven_ne hne] at hdriven
      exact hs id' r' hr' hdriven

theorem forward (hd : s.Drives s' i t id c pc f)
    (hf : ∀ r, s.runs.lookup id = some r → r.status.Follows (f r).status) : s.RunsForward s' := by
  intro id' r r' hr hr'
  by_cases hne : id' = id
  · subst hne
    rw [hd.runs, if_pos rfl, hr, Option.map_some] at hr'
    obtain rfl := Option.some.inj hr'
    exact hf r hr
  · rw [hd.runs, if_neg hne, hr] at hr'
    obtain rfl := Option.some.inj hr'
    exact .inl rfl

end Drives

theorem reconcile_settled (now : ℤ) (r : ResearchRunRow) :
    (r.reconcile now).status.settled = true := by
  unfold ResearchRunRow.reconcile
  split
  · rfl
  · rfl
  · rename_i hp hr
    rcases hs : r.status with _ | _ | _ | _
    · exact absurd hs hp
    · exact absurd hs hr
    · rfl
    · rfl

theorem reconcile_follows (now : ℤ) (r : ResearchRunRow) :
    r.status.Follows (r.reconcile now).status := by
  unfold ResearchRunRow.reconcile
  split
  · rename_i hs
    exact .inr (.inl ⟨hs, .inr rfl⟩)
  · rename_i hs
    exact .inr (.inr ⟨hs, .inr rfl⟩)
  · exact .inl rfl

namespace DriverInv

/-- No step takes a run's status back. -/
theorem step_forward {a : ResearchAction} (h : s.DriverInv) (hs : s.step host a = some s') :
    s.RunsForward s' := by
  rcases driverStep h.runDrawn hs with
    ⟨-, hr, -, -, -⟩ | ⟨hid, -, -, hr, -, -, -⟩ | ⟨hpc, hd⟩ | ⟨-, -, hd⟩ | ⟨-, hd, -⟩
      | ⟨hpc, hd⟩ | ⟨hpc, hd⟩ | ⟨-, -, hd⟩ | ⟨hr, -, -, -⟩
  · intro id r r' hrun hrun'
    obtain rfl : r = r' := Option.some.inj (hrun.symm.trans (hr hrun'))
    exact .inl rfl
  · intro id' r r' hrun hrun'
    rw [hr] at hrun'
    split_ifs at hrun' with heq
    · exact absurd (heq ▸ h.runDrawn hrun) hid
    · obtain rfl : r = r' := Option.some.inj (hrun.symm.trans hrun')
      exact .inl rfl
  · refine hd.forward fun r hr => ?_
    have hfits := (h.inStep hd.hi hd.job hr).2.2
    rw [hpc] at hfits
    exact .inr (.inl ⟨hfits, .inl rfl⟩)
  · exact hd.forward fun _ _ => .inl rfl
  · exact hd.forward fun _ _ => .inl rfl
  · refine hd.forward fun r hr => ?_
    have hfits := (h.inStep hd.hi hd.job hr).2.2
    rw [hpc] at hfits
    exact .inr (.inr ⟨hfits.1, .inl rfl⟩)
  · refine hd.forward fun r hr => ?_
    have hfits := (h.inStep hd.hi hd.job hr).2.2
    rw [hpc] at hfits
    exact .inr (.inr ⟨hfits, .inr rfl⟩)
  · exact hd.forward fun _ _ => .inl rfl
  · intro id r r' hrun hrun'
    rw [hr, hrun, Option.map_some] at hrun'
    obtain rfl := Option.some.inj hrun'
    exact reconcile_follows _ r

/-- A run whose driver has not begun, or is back from its call, is under way. -/
theorem pcFits_open {r : ResearchRunRow} {pc : Pc} (hpc : pc = .start ∨ ∃ res, pc = .called res)
    (h : s.PcFits r pc) : r.status.settled = false := by
  rcases hpc with rfl | ⟨res, rfl⟩
  · rw [show r.status = .pending from h]
    rfl
  · have hrun : r.status = .running := by
      rcases res with _ | ⟨inv, art⟩
      · exact h
      · exact h.1
    rw [hrun]
    rfl

/-- A driver's own write that fails has no row to miss. -/
theorem recorded_iff {i : ℕ} {t : Task} {id : String} {c : ToolCall} {pc : Pc} {a : ResearchAction}
    {f : ResearchRunRow → ResearchRunRow} {fails : Bool} (hd : s.Drives s' i t id c pc f)
    (hgone : fails = false → s.runs.lookup id = none)
    (ha : s.Recorded a ↔ (fails = true → ∀ t ∈ s.sys.tasks[i]?, ∀ id ∈ t.job.runId?,
      s.runs.lookup id = none)) : s.runs.lookup id = none ↔ s.Recorded a := by
  have hid : t.job.runId? = some id := Job.runId?_eq_some.2 ⟨c, hd.job⟩
  rw [ha, hd.hi]
  constructor
  · intro hnone _ u hu id' hid'
    obtain rfl : t = u := Option.some.inj hu
    obtain rfl : id = id' := Option.some.inj (hid.symm.trans hid')
    exact hnone
  · intro hall
    by_cases hf : fails = true
    · exact hall hf t rfl id hid
    · exact hgone (by simpa using hf)

theorem recorded_setRunning {i : ℕ} {fails : Bool} : s.Recorded (.setRunning i fails) ↔
    (fails = true → ∀ t ∈ s.sys.tasks[i]?, ∀ id ∈ t.job.runId?, s.runs.lookup id = none) := by
  rcases fails with _ | _ <;> simp [Recorded]

theorem recorded_settle {i : ℕ} {fails : Bool} : s.Recorded (.settle i fails) ↔
    (fails = true → ∀ t ∈ s.sys.tasks[i]?, ∀ id ∈ t.job.runId?, s.runs.lookup id = none) := by
  rcases fails with _ | _ <;> simp [Recorded]

/-- A driver that stops short of a last write leaves its run behind, if that is there. -/
theorem abandoned {i : ℕ} {t : Task} {id : String} {c : ToolCall} {error : Option OrchdMcpError}
    (h : s.DriverInv) (hs : s.Settled) (hd : s.Drives s' i t id c (.over error) fun r => r)
    (hr : ∀ r, s.PcFits r t.pc → r.status.settled = false) :
    s'.Settled ↔ s.runs.lookup id = none := by
  rw [hd.settled_iff h hs]
  constructor
  · intro hown
    by_contra hne
    obtain ⟨r, hrun⟩ := Option.ne_none_iff_exists'.1 hne
    have hopen := hr r (h.inStep hd.hi hd.job hrun).2.2
    rw [hown r hrun rfl] at hopen
    cases hopen
  · intro hnone r hrun
    rw [hnone] at hrun
    cases hrun

theorem quiet_settled (hs : s.Settled)
    (hr : ∀ {id r}, s'.runs.lookup id = some r → s.runs.lookup id = some r)
    (ht : Followed s.sys.tasks s'.sys.tasks) : s'.Settled := by
  intro id r hrun hdriven
  refine hs id r (hr hrun) fun hthere => hdriven ?_
  obtain ⟨i, t, hi, hid, hlive⟩ := hthere
  obtain ⟨t', hi', hjob, hpc⟩ := ht.stays hi hid
  refine ⟨i, t', hi', hjob ▸ hid, ?_⟩
  rcases hpc with hpc | ⟨-, hpc⟩ | ⟨-, hpc⟩
  · exact hpc ▸ hlive
  · exact Pc.live_of_calling hpc
  · rw [hpc]
    rfl

/-- A run that has been asked for is left pending if it has no driver. -/
theorem started_settled {ideaId serverId toolName argsJson id : String} {fault : Option StartFault}
    {row : ResearchRunRow} (h : s.DriverInv) (hs : s.Settled) (hid : id ∉ s.drawn)
    (hstart : s.Startable ideaId serverId) (hrow : row.status = .pending)
    (hr : ∀ id', s'.runs.lookup id' = if id' = id then some row else s.runs.lookup id')
    (ht : (fault = some .projectLookup ∧ s'.sys.tasks = s.sys.tasks)
      ∨ (fault = none ∧ ∃ projectId, s'.sys.tasks = s.sys.tasks ++
        [⟨.research id ⟨serverId, toolName, argsJson, projectId⟩, .start, none, none, none⟩])) :
    s'.Settled ↔ s.Recorded (.startRun ideaId serverId toolName argsJson id fault) := by
  rcases ht with ⟨rfl, ht⟩ | ⟨rfl, projectId, ht⟩
  · refine iff_of_false (fun hs' => ?_) (not_not.2 hstart)
    have hdriven : ¬s'.Driven id := by
      rintro ⟨i, t, hi, hrun, -⟩
      rw [ht] at hi
      exact hid (h.taskDrawn hi hrun)
    have hopen := hs' id row (by rw [hr, if_pos rfl]) hdriven
    rw [hrow] at hopen
    cases hopen
  · refine iff_of_true (fun id' r hrun hdriven => ?_) trivial
    rw [hr] at hrun
    split_ifs at hrun with heq
    · have hspawn := congrArg (·[s.sys.tasks.length]?) ht
      simp only [List.getElem?_concat_length] at hspawn
      exact absurd ⟨_, _, hspawn, congrArg some heq.symm, rfl⟩ hdriven
    · refine hs id' r hrun fun hthere => hdriven ?_
      obtain ⟨i, t, hi, hid', hlive⟩ := hthere
      refine ⟨i, t, ?_, hid', hlive⟩
      rw [ht]
      exact Slots.mem_getElem?_concat.2 (.inl hi)

/-- A step leaves a run behind exactly when it fails without a record. -/
theorem step_settled {a : ResearchAction} (h : s.DriverInv) (hs : s.Settled)
    (hstep : s.step host a = some s') : s'.Settled ↔ s.Recorded a := by
  rcases driverStep h.runDrawn hstep with
    ⟨ha, hr, -, ht, -⟩ | ⟨hid, hstart, hrow, hr, -, ht, -⟩ | ⟨-, hd⟩ | ⟨hpc, hgone, hd⟩ | ⟨-, hd, -⟩
      | ⟨-, hd⟩ | ⟨-, hd⟩ | ⟨hpc, hgone, hd⟩ | ⟨hr, -, -, -⟩
  · exact iff_of_true (quiet_settled hs hr ht) ha
  · exact h.started_settled hs hid hstart hrow.2.1 hr ht
  · exact iff_of_true ((hd.settled_iff h hs).2 fun _ _ hover => by cases hover) trivial
  · rw [h.abandoned hs hd fun r hfits => pcFits_open (.inl hpc) hfits]
    exact recorded_iff hd hgone recorded_setRunning
  · exact iff_of_true ((hd.settled_iff h hs).2 fun _ _ hover => by cases hover) trivial
  · exact iff_of_true ((hd.settled_iff h hs).2 fun _ _ _ => rfl) trivial
  · exact iff_of_true ((hd.settled_iff h hs).2 fun _ _ _ => rfl) trivial
  · rw [h.abandoned hs hd fun r hfits => pcFits_open (.inr ⟨_, hpc⟩) hfits]
    exact recorded_iff hd hgone recorded_settle
  · refine iff_of_true (fun id r hrun _ => ?_) trivial
    rw [hr, Option.map_eq_some_iff] at hrun
    obtain ⟨r, -, rfl⟩ := hrun
    exact reconcile_settled _ r

end DriverInv

/-- In every order of the requests, of their drivers' steps, of deletions, of changes of consents,
policies and flags and of crashes, with any statements of a run's path failing: the runs move
forward alone, one that is done has what its own call has made, and one that nothing drives is
settled, exactly when no statement fails that leaves its run behind. -/
theorem research_runs_settle (host : ExtHost) (acts : List ResearchAction) :
    (Runs.Along (step host) (fun s a => ∀ t, s.step host a = some t → s.RunsForward t) fresh acts
        ∧ Runs.Throughout (step host) Honest fresh acts)
      ↔ Runs.Along (step host) Recorded fresh acts := by
  have hforward : Runs.Along (step host) (fun s a => ∀ t, s.step host a = some t →
      s.RunsForward t) fresh acts := by
    refine Runs.along_of_keeps (I := DriverInv) (fun s a t hs hstep => ⟨hs.step hstep, ?_⟩) .fresh acts
    exact fun t' ht' => hs.step_forward ht'
  rw [and_iff_right hforward]
  refine Runs.throughout_iff (I := DriverInv) (fun s a t hs hstep => hs.step hstep)
    (fun s a t hs hhonest hstep => ?_) .fresh ?_ acts
  · rw [(hs.step hstep).honest]
    exact hs.step_settled hhonest.settled hstep
  · rw [DriverInv.fresh.honest]
    intro id r hr
    cases hr

/-- An idea and a server, and a run of them whose request fails at the lookup of its project. -/
def lookupFailureRun : List ResearchAction :=
  [.ext (.domain
    { Store.empty with ideas := ⟨[⟨"idea", none, "An idea", "", .captured, 0, 0⟩], by decide⟩ }),
   .ext (.addServer ⟨"prowl", .stdio, none, some "/usr/local/bin/prowl-mcp", [], .empty, .global,
    none, .none, none, none, true, 30000, 2⟩ "server"),
   .startRun "idea" "server" "search" "\x7b\x7d" "run" (some .projectLookup)]

/-- The run stays pending, with nothing to drive it. -/
theorem run_left_pending :
    (∃ s, Runs.run (step plainExtHost) fresh lookupFailureRun = some s
      ∧ s.runs.rows.map ResearchRunRow.status = [.pending] ∧ s.sys.tasks.length = 0)
      ∧ ¬Runs.Throughout (step plainExtHost) Honest fresh lookupFailureRun := by
  have hrun : ((Runs.run (step plainExtHost) fresh lookupFailureRun).map fun s =>
      ((s.runs.lookup "run").map ResearchRunRow.status, s.runs.rows.map ResearchRunRow.status,
        s.sys.tasks.length)) = some (some .pending, [.pending], 0) := by decide +kernel
  obtain ⟨s, hs, hview⟩ := Option.map_eq_some_iff.1 hrun
  rw [Prod.mk.injEq, Prod.mk.injEq] at hview
  obtain ⟨hlookup, hrows, htasks⟩ := hview
  refine ⟨⟨s, hs, hrows, htasks⟩, fun h => ?_⟩
  obtain ⟨r, hr, hpending⟩ := Option.map_eq_some_iff.1 hlookup
  have hdriven : ¬s.Driven "run" := by
    rintro ⟨i, t, hi, -⟩
    rw [List.eq_nil_of_length_eq_zero htasks] at hi
    cases hi
  have hsettled := (h.last hs).settled "run" r hr hdriven
  rw [hpending] at hsettled
  cases hsettled

end ResearchSys

end BuilderPro
