import BuilderPro.Orchd.ResearchSteps

/-!
# A run and its driver

A run's row is as its driver has left it (`PcFits`), and one that is done has what its own call has
brought (`RowFits`).  Every step keeps both (`DriverInv.step`).
-/

namespace BuilderPro

open Results

namespace ResearchSys

variable {host : ExtHost} {s s' : ResearchSys}

/-- A run that has an artifact is done, and one that is done has what its own call has made. -/
structure RowFits (s : ResearchSys) (r : ResearchRunRow) : Prop where
  artifact (h : r.artifactId.isSome = true) : r.status = .done
  made (h : r.status = .done) :
    ∃ x y, s.MadeBy r x y ∧ r.invocationId = some x.id ∧ r.artifactId = some y.id

/-- A run's row, as its driver has left it. -/
def PcFits (s : ResearchSys) (r : ResearchRunRow) : Pc → Prop
  | .start => r.status = .pending
  | .waiting _ => False
  | .called (.ok (inv, art)) =>
    r.status = .running ∧ ∃ x y, s.MadeBy r x y ∧ x.id = inv ∧ y.id = art
  | .over _ => True
  | _ => r.status = .running

structure DriverInv (s : ResearchSys) : Prop where
  runDrawn {id : String} {r : ResearchRunRow} (h : s.runs.lookup id = some r) : id ∈ s.drawn
  taskDrawn {i : ℕ} {t : Task} {id : String} (h : s.sys.tasks[i]? = some t)
    (hr : t.job.runId? = some id) : id ∈ s.drawn
  single {i j : ℕ} {t u : Task} {id : String} (hi : s.sys.tasks[i]? = some t)
    (hj : s.sys.tasks[j]? = some u) (ht : t.job.runId? = some id) (hu : u.job.runId? = some id) :
    i = j
  inStep {i : ℕ} {t : Task} {id : String} {c : ToolCall} {r : ResearchRunRow}
    (h : s.sys.tasks[i]? = some t) (hj : t.job = .research id c) (hr : s.runs.lookup id = some r) :
    r.serverId = c.serverId ∧ r.toolName = c.toolName ∧ s.PcFits r t.pc
  row {id : String} {r : ResearchRunRow} (hr : s.runs.lookup id = some r) : s.RowFits r

theorem RowFits.artifactId_eq_none {r : ResearchRunRow} (h : s.RowFits r) (hs : r.status ≠ .done) :
    r.artifactId = none := by
  by_contra hne
  exact hs (h.artifact (Option.isSome_iff_ne_none.2 hne))

theorem rowFits_of_none {r : ResearchRunRow} (ha : r.artifactId = none) (hs : r.status ≠ .done) :
    s.RowFits r :=
  ⟨fun h => by simp [ha] at h, fun h => absurd h hs⟩

theorem RowFits.mono {r : ResearchRunRow} (h : s.RowFits r)
    (hk : ∀ {x y}, s.MadeBy r x y → s'.MadeBy r x y) : s'.RowFits r := by
  refine ⟨h.artifact, fun hs => ?_⟩
  obtain ⟨x, y, hm, hx, hy⟩ := h.made hs
  exact ⟨x, y, hk hm, hx, hy⟩

theorem PcFits.mono {r : ResearchRunRow} {pc : Pc} (h : s.PcFits r pc)
    (hk : ∀ {x y}, s.MadeBy r x y → s'.MadeBy r x y) : s'.PcFits r pc := by
  rcases pc with _ | _ | _ | _ | _ | (_ | ⟨inv, art⟩) | _
  case called.ok =>
    obtain ⟨hs, x, y, hm, hx, hy⟩ := h
    exact ⟨hs, x, y, hk hm, hx, hy⟩
  all_goals exact h

theorem PcFits.status_of_calling {r : ResearchRunRow} {pc : Pc} (h : s.PcFits r pc)
    (hc : pc.calling = true) : r.status = .running := by
  rcases pc with _ | _ | _ | _ | _ | (_ | _) | _ <;> first | exact h | cases hc

theorem pcFits_of_calling {r : ResearchRunRow} {pc : Pc} (hs : r.status = .running)
    (hc : pc.calling = true) : s.PcFits r pc := by
  rcases pc with _ | _ | _ | _ | _ | (_ | _) | _ <;> first | exact hs | cases hc

theorem PcFits.step {r : ResearchRunRow} {pc pc' : Pc} (h : s.PcFits r pc) (hpc : PcStep pc pc')
    (hk : ∀ {x y}, s.MadeBy r x y → s'.MadeBy r x y) : s'.PcFits r pc' := by
  rcases hpc with rfl | ⟨hc, hc'⟩ | ⟨⟨key, rfl⟩, -⟩
  · exact h.mono hk
  · exact pcFits_of_calling (h.status_of_calling hc) hc'
  · exact h.elim

namespace DriverInv

theorem fresh : DriverInv fresh where
  runDrawn h := by cases h
  taskDrawn h := by cases h
  single h := by cases h
  inStep h := by cases h
  row h := by cases h

/-- Steps that drive no run. -/
theorem quiet (h : s.DriverInv)
    (hr : ∀ {id r}, s'.runs.lookup id = some r → s.runs.lookup id = some r)
    (hk : ∀ {id r x y}, s'.runs.lookup id = some r → s.MadeBy r x y → s'.MadeBy r x y)
    (ht : Followed s.sys.tasks s'.sys.tasks) (hd : ∀ id ∈ s.drawn, id ∈ s'.drawn) :
    s'.DriverInv where
  runDrawn hid := hd _ (h.runDrawn (hr hid))
  taskDrawn hi hid := by
    obtain ⟨t, hi', hjob, -⟩ := ht.came hi hid
    exact hd _ (h.taskDrawn hi' (hjob ▸ hid))
  single hi hj hid hid' := by
    obtain ⟨t, hi', hjob, -⟩ := ht.came hi hid
    obtain ⟨u, hj', hjob', -⟩ := ht.came hj hid'
    exact h.single hi' hj' (hjob ▸ hid) (hjob' ▸ hid')
  inStep hi hj hid := by
    obtain ⟨t, hi', hjob, hpc⟩ := ht.came hi (Job.runId?_eq_some.2 ⟨_, hj⟩)
    obtain ⟨hserver, htool, hfits⟩ := h.inStep hi' (hjob.trans hj) (hr hid)
    exact ⟨hserver, htool, hfits.step hpc (hk hid)⟩
  row hid := (h.row (hr hid)).mono (hk hid)

/-- A step of a driver. -/
theorem drives {i : ℕ} {t : Task} {id : String} {c : ToolCall} {pc : Pc}
    {f : ResearchRunRow → ResearchRunRow} (h : s.DriverInv) (hd : s.Drives s' i t id c pc f)
    (hf : ∀ r, (f r).serverId = r.serverId ∧ (f r).toolName = r.toolName)
    (hpc : ∀ r, s.runs.lookup id = some r → r.serverId = c.serverId → r.toolName = c.toolName →
      s.PcFits r t.pc → s'.PcFits (f r) pc ∧ s'.RowFits (f r)) : s'.DriverInv := by
  obtain ⟨t', hjob, hpc', htasks⟩ := hd.tasks
  have hslot : ∀ {j u}, s'.sys.tasks[j]? = some u →
      (j = i ∧ u = t') ∨ (j ≠ i ∧ s.sys.tasks[j]? = some u) := by
    intro j u hu
    rw [htasks, Slots.getElem?_set hd.hi] at hu
    split_ifs at hu with hj
    · exact .inl ⟨hj, (Option.some.inj hu).symm⟩
    · exact .inr ⟨hj, hu⟩
  have hcame : ∀ {j : ℕ} {u : Task}, s'.sys.tasks[j]? = some u →
      ∃ v : Task, s.sys.tasks[j]? = some v ∧ v.job = u.job := by
    intro j u hu
    rcases hslot hu with ⟨rfl, rfl⟩ | ⟨-, hu⟩
    · exact ⟨t, hd.hi, hjob.symm⟩
    · exact ⟨u, hu, rfl⟩
  have hown : ∀ {r'}, s'.runs.lookup id = some r' →
      ∃ r, s.runs.lookup id = some r ∧ f r = r' := by
    intro r' hr'
    rw [hd.runs, if_pos rfl] at hr'
    exact Option.map_eq_some_iff.1 hr'
  have hother : ∀ {id' r'}, id' ≠ id → s'.runs.lookup id' = some r' →
      s.runs.lookup id' = some r' := by
    intro id' r' hne hr'
    rwa [hd.runs, if_neg hne] at hr'
  have hid : t.job.runId? = some id := Job.runId?_eq_some.2 ⟨c, hd.job⟩
  refine ⟨fun {id' r'} hr' => ?_, fun hu hr => ?_, fun hu hv hr hr' => ?_,
    fun {j u id' c' r'} hu hj hr' => ?_, fun {id' r'} hr' => ?_⟩
  · rw [hd.drawn]
    by_cases heq : id' = id
    · subst heq
      exact h.taskDrawn hd.hi hid
    · exact h.runDrawn (hother heq hr')
  · obtain ⟨v, hv, hjob'⟩ := hcame hu
    rw [hd.drawn]
    exact h.taskDrawn hv (hjob' ▸ hr)
  · obtain ⟨u', hu', hjob'⟩ := hcame hu
    obtain ⟨v', hv', hjob''⟩ := hcame hv
    exact h.single hu' hv' (hjob' ▸ hr) (hjob'' ▸ hr')
  · rcases hslot hu with ⟨rfl, rfl⟩ | ⟨hne, hu⟩
    · have heq : Job.research id' c' = .research id c := by rw [← hj, hjob, hd.job]
      cases heq
      obtain ⟨r, hr, rfl⟩ := hown hr'
      obtain ⟨hserver, htool, hfits⟩ := h.inStep hd.hi hd.job hr
      rw [(hf r).1, (hf r).2, hpc']
      exact ⟨hserver, htool, (hpc r hr hserver htool hfits).1⟩
    · have heq : id' ≠ id := by
        rintro rfl
        exact hne (h.single hu hd.hi (Job.runId?_eq_some.2 ⟨c', hj⟩) hid)
      obtain ⟨hserver, htool, hfits⟩ := h.inStep hu hj (hother heq hr')
      exact ⟨hserver, htool, hfits.mono hd.made⟩
  · by_cases heq : id' = id
    · subst heq
      obtain ⟨r, hr, rfl⟩ := hown hr'
      obtain ⟨hserver, htool, hfits⟩ := h.inStep hd.hi hd.job hr
      exact (hpc r hr hserver htool hfits).2
    · exact (h.row (hother heq hr')).mono hd.made

/-- A run that is new has a name of its own. -/
theorem started {serverId toolName argsJson id : String} {fault : Option StartFault}
    {row : ResearchRunRow} (h : s.DriverInv) (hid : id ∉ s.drawn)
    (hrow : row.id = id ∧ row.status = .pending ∧ row.artifactId = none
      ∧ row.serverId = serverId ∧ row.toolName = toolName)
    (hr : ∀ id', s'.runs.lookup id' = if id' = id then some row else s.runs.lookup id')
    (hk : ∀ {r x y}, s.MadeBy r x y → s'.MadeBy r x y)
    (ht : (fault = some .projectLookup ∧ s'.sys.tasks = s.sys.tasks)
      ∨ (fault = none ∧ ∃ projectId, s'.sys.tasks = s.sys.tasks ++
        [⟨.research id ⟨serverId, toolName, argsJson, projectId⟩, .start, none, none, none⟩]))
    (hd : s'.drawn = id :: s.drawn) : s'.DriverInv := by
  obtain ⟨-, hstatus, hart, hserver, htool⟩ := hrow
  have hold : ∀ {id' r'}, id' ≠ id → s'.runs.lookup id' = some r' →
      s.runs.lookup id' = some r' := by
    intro id' r' hne hr'
    rwa [hr, if_neg hne] at hr'
  -- a driver is the new run's own, or was there
  have hslot : ∀ {j : ℕ} {u : Task} {id' : String}, s'.sys.tasks[j]? = some u →
      u.job.runId? = some id' →
      (id' ≠ id ∧ s.sys.tasks[j]? = some u) ∨ (id' = id ∧ j = s.sys.tasks.length ∧ u.pc = .start
        ∧ ∃ projectId, u.job = .research id ⟨serverId, toolName, argsJson, projectId⟩) := by
    intro j u id' hu hrun
    have hthere : s.sys.tasks[j]? = some u → id' ≠ id := by
      rintro hu rfl
      exact hid (h.taskDrawn hu hrun)
    rcases ht with ⟨-, ht⟩ | ⟨-, projectId, ht⟩ <;> rw [ht] at hu
    · exact .inl ⟨hthere hu, hu⟩
    · rcases Slots.mem_getElem?_concat.1 hu with hu | ⟨hj, rfl⟩
      · exact .inl ⟨hthere hu, hu⟩
      · exact .inr ⟨(Option.some.inj hrun).symm, hj, rfl, projectId, rfl⟩
  refine ⟨fun {id' r'} hr' => ?_, fun {j u id'} hu hrun => ?_, fun hu hv hrun hrun' => ?_,
    fun {j u id' c' r'} hu hj hr' => ?_, fun {id' r'} hr' => ?_⟩
  · rw [hd]
    by_cases heq : id' = id
    · exact heq ▸ List.mem_cons_self
    · exact List.mem_cons_of_mem _ (h.runDrawn (hold heq hr'))
  · rw [hd]
    rcases hslot hu hrun with ⟨-, hu⟩ | ⟨rfl, -⟩
    · exact List.mem_cons_of_mem _ (h.taskDrawn hu hrun)
    · exact List.mem_cons_self
  · rcases hslot hu hrun with ⟨hne, hu⟩ | ⟨heq, hi, -⟩ <;>
      rcases hslot hv hrun' with ⟨hne', hv⟩ | ⟨heq', hj, -⟩
    · exact h.single hu hv hrun hrun'
    · exact absurd heq' hne
    · exact absurd heq hne'
    · exact hi.trans hj.symm
  · rcases hslot hu (Job.runId?_eq_some.2 ⟨c', hj⟩) with ⟨hne, hu⟩ | ⟨rfl, -, hpc, projectId, hjob⟩
    · obtain ⟨hs, htl, hfits⟩ := h.inStep hu hj (hold hne hr')
      exact ⟨hs, htl, hfits.mono hk⟩
    · rw [hjob] at hj
      cases hj
      rw [hr, if_pos rfl] at hr'
      obtain rfl := Option.some.inj hr'
      rw [hpc]
      exact ⟨hserver, htool, hstatus⟩
  · by_cases heq : id' = id
    · rw [hr, if_pos heq] at hr'
      obtain rfl := Option.some.inj hr'
      exact rowFits_of_none hart (by rw [hstatus]; simp)
    · exact (h.row (hold heq hr')).mono hk

/-- A boot leaves a run settled, and without a driver. -/
theorem crash {now : ℤ} (h : s.DriverInv)
    (hr : ∀ id, s'.runs.lookup id = (s.runs.lookup id).map (·.reconcile now))
    (hk : ∀ {r x y}, s.MadeBy r x y → s'.MadeBy r x y)
    (ht : s'.sys.tasks = s.sys.tasks.map Task.drop) (hd : s'.drawn = s.drawn) :
    s'.DriverInv := by
  have hslot : ∀ {j : ℕ} {u : Task}, s'.sys.tasks[j]? = some u →
      ∃ v : Task, s.sys.tasks[j]? = some v ∧ v.drop = u := by
    intro j u hu
    rw [ht, List.getElem?_map] at hu
    exact Option.map_eq_some_iff.1 hu
  have hcame : ∀ {id r'}, s'.runs.lookup id = some r' →
      ∃ r, s.runs.lookup id = some r ∧ r.reconcile now = r' := by
    intro id r' hr'
    rw [hr] at hr'
    exact Option.map_eq_some_iff.1 hr'
  refine ⟨fun hr' => ?_, fun hu hrun => ?_, fun hu hv hrun hrun' => ?_, fun hu hj hr' => ?_,
    fun hr' => ?_⟩
  · obtain ⟨r, hr', -⟩ := hcame hr'
    exact hd ▸ h.runDrawn hr'
  · obtain ⟨v, hv, rfl⟩ := hslot hu
    exact hd ▸ h.taskDrawn hv hrun
  · obtain ⟨u', hu', rfl⟩ := hslot hu
    obtain ⟨v', hv', rfl⟩ := hslot hv
    exact h.single hu' hv' hrun hrun'
  · obtain ⟨v, hv, rfl⟩ := hslot hu
    obtain ⟨r, hr, rfl⟩ := hcame hr'
    obtain ⟨hs, htl, -⟩ := h.inStep hv hj hr
    unfold ResearchRunRow.reconcile
    split
    · exact ⟨hs, htl, trivial⟩
    · exact ⟨hs, htl, trivial⟩
    · exact ⟨hs, htl, trivial⟩
  · obtain ⟨r, hr, rfl⟩ := hcame hr'
    have hfits := h.row hr
    unfold ResearchRunRow.reconcile
    split
    · rename_i hs
      exact rowFits_of_none (hfits.artifactId_eq_none (by rw [hs]; simp)) (by simp)
    · rename_i hs
      exact rowFits_of_none (hfits.artifactId_eq_none (by rw [hs]; simp)) (by simp)
    · exact hfits.mono hk

theorem step {a : ResearchAction} (h : s.DriverInv) (hs : s.step host a = some s') :
    s'.DriverInv := by
  rcases driverStep h.runDrawn hs with
    ⟨-, hr, hk, ht, hd⟩ | ⟨hid, -, hrow, hr, hk, ht, hd⟩ | ⟨hpc, hd⟩ | ⟨hpc, -, hd⟩ | ⟨hpc, hd, hm⟩
      | ⟨hpc, hd⟩ | ⟨hpc, hd⟩ | ⟨hpc, -, hd⟩ | ⟨hr, hk, ht, hd⟩
  · exact h.quiet hr hk ht hd
  · exact h.started hid hrow hr hk ht hd
  · refine h.drives hd (fun _ => ⟨rfl, rfl⟩) fun r hr _ _ hfits => ⟨rfl, ?_⟩
    rw [hpc] at hfits
    exact rowFits_of_none ((h.row hr).artifactId_eq_none (by rw [hfits]; simp)) (by simp)
  · exact h.drives hd (fun _ => ⟨rfl, rfl⟩) fun r hr _ _ _ => ⟨trivial, (h.row hr).mono hd.made⟩
  · refine h.drives hd (fun _ => ⟨rfl, rfl⟩) fun r hr hserver htool hfits =>
      ⟨?_, (h.row hr).mono hd.made⟩
    rw [hpc] at hfits
    exact ⟨hfits, _, _, hm r (KeyedTable.key_eq hr) hserver htool, rfl, rfl⟩
  · refine h.drives hd (fun _ => ⟨rfl, rfl⟩) fun r hr _ _ hfits => ⟨trivial, fun _ => rfl, fun _ => ?_⟩
    rw [hpc] at hfits
    obtain ⟨-, x, y, hm, rfl, rfl⟩ := hfits
    exact ⟨x, y, (hd.made hm).congr rfl rfl rfl, rfl, rfl⟩
  · exact h.drives hd (fun _ => ⟨rfl, rfl⟩) fun r _ _ _ _ =>
      ⟨trivial, rowFits_of_none rfl (by simp)⟩
  · exact h.drives hd (fun _ => ⟨rfl, rfl⟩) fun r hr _ _ _ => ⟨trivial, (h.row hr).mono hd.made⟩
  · exact h.crash hr hk ht hd

end DriverInv

end ResearchSys

end BuilderPro
