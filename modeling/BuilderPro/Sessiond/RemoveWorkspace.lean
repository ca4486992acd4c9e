import BuilderPro.Sessiond.CreationSteps

/-!
# A removed workspace has no live session

In every run in which each creation that has passed its gates is registered by the time the removal
of its workspace reads the strays, no session of the workspace is live once the removal is
acknowledged (`no_orphan_of_safe`).
-/

namespace BuilderPro

namespace RemovalSys

variable {s t : RemovalSys} {e : ServerDeps} {w : String}

theorem removalInv_step {a : RemovalAct} (h : RemovalInv s) (hsafe : s.removalSafe a)
    (ht : s.step a = some t) : RemovalInv t := by
  cases a <;> simp only [step] at ht
  case createWorkspace w =>
    split_ifs at ht with hw
    cases ht
    refine ⟨h.used, h.live, fun w' hw' => ?_, h.starting, h.distinct, h.held, h.registered,
      fun r hr => ?_⟩
    · rcases List.mem_insert_iff.1 hw' with rfl | hw'
      · exact List.mem_cons_self
      · exact List.mem_cons_of_mem _ (h.workspaces w' hw')
    · have hok := h.removes r hr
      refine ⟨hok.ids, hok.closed,
        fun hd => ⟨List.mem_cons_of_mem _ (hok.deleted hd).1, fun hw' => ?_⟩, hok.swept⟩
      rcases List.mem_insert_iff.1 hw' with rfl | hw'
      · exact hw (hok.deleted hd).1
      · exact (hok.deleted hd).2 hw'
  case background op =>
    split_ifs at ht with hb
    obtain ⟨e, he, rfl⟩ := Option.map_eq_some_iff.1 ht
    exact h.evolve (ServerDeps.background_evolves hb he)
  case startCreate w =>
    cases ht
    exact removalInv_startCreate h w
  case create i =>
    obtain ⟨c, hi, ht⟩ := Option.bind_eq_some_iff.1 ht
    exact removalInv_createStep h hi ht
  case spawn i spec id now =>
    obtain ⟨c, hi, ht⟩ := Option.bind_eq_some_iff.1 ht
    exact removalInv_spawnStep h hi ht
  case spawnFails i r =>
    obtain ⟨c, hi, ht⟩ := Option.bind_eq_some_iff.1 ht
    split at ht <;> cases ht
    rename_i hc
    refine h.reply hi r fun id hid _ => ?_
    rw [hc] at hid
    cases hid
  case endsEarly i status =>
    obtain ⟨c, hi, ht⟩ := Option.bind_eq_some_iff.1 ht
    exact removalInv_earlyStep h hi ht
  case startRemove w =>
    cases ht
    refine ⟨h.used, h.live, h.workspaces, h.starting, h.distinct, h.held, h.registered,
      fun r hr => ?_⟩
    rcases List.mem_append.1 hr with hr | hr
    · exact ⟨(h.removes r hr).ids, (h.removes r hr).closed, (h.removes r hr).deleted,
        (h.removes r hr).swept⟩
    · obtain rfl := List.mem_singleton.1 hr
      exact removeOk_of_ids nofun rfl rfl
  case remove j status =>
    obtain ⟨r, hj, ht⟩ := Option.bind_eq_some_iff.1 ht
    exact removalInv_removeStep h hj hsafe ht
  case pick j id =>
    obtain ⟨r, hj, ht⟩ := Option.bind_eq_some_iff.1 ht
    exact removalInv_pickStep h hj ht

theorem removalInv_init {d : ServerDeps} (hd : d.DaemonInv) : RemovalInv (init d) where
  used := hd.used
  live := hd.live
  workspaces _ h := h
  starting _ _ _ h := by cases h
  distinct _ _ _ _ _ _ h := by cases h
  held _ h := by cases h
  registered id w hw := .inl (hd.registered id w hw)
  removes _ h := by cases h

theorem RemovalInv.noOrphan (h : RemovalInv s) : NoOrphan s := by
  intro r hr inFlight hpc _ x hx hw hlive
  have hpty : x.pty.isSome := by
    unfold Session.live at hlive
    cases hp : x.pty with
    | none => simp [hp] at hlive
    | some p => rfl
  have htr : s.deps.tracked x.id = some (r.workspaceId, true) := by
    rw [ServerDeps.tracked_of_lookup (KeyedTable.mem_rows.1 hx), hw, hpty]
  have := ((h.removes r hr).swept [] (by rw [hpc]; rfl)).1 x.id htr
  cases this

/-- In every run of safe steps from a state the daemon reaches, no session of a removed workspace is
live. -/
theorem no_orphan_of_safe {ops : List ServerDeps.Op} {d : ServerDeps}
    (hd : ServerDeps.run ServerDeps.init ops = some d) {as : List RemovalAct}
    (hsafe : Runs.Along step (fun s a => s.removalSafe a) (init d) as)
    (hr : run (init d) as = some t) : NoOrphan t :=
  (hsafe.keeps (I := RemovalInv) (fun _ _ _ => removalInv_step)
    (removalInv_init (ServerDeps.run_inv ServerDeps.daemonInv_init hd)) hr).noOrphan

/-- A creation that has passed its gates registers its session in time, and the sweep kills it. -/
def strayRun : List RemovalAct :=
  [.createWorkspace "w", .startCreate "w", .create 0, .create 0, .startRemove "w"] ++
    List.replicate 8 (.remove 0 (.signaled "Terminated")) ++
    .spawn 0 ⟨"zsh", "/bin/zsh", "/", 80, 24⟩ "s" 0 :: List.replicate 4 (.create 0) ++
    [.remove 0 (.signaled "Terminated"), .pick 0 "s"] ++
    List.replicate 5 (.remove 0 (.signaled "Terminated")) ++
    .background (.runFinalFlush 0) :: List.replicate 2 (.remove 0 (.signaled "Terminated"))

theorem no_orphan_strayRun : ∃ t, run (init ServerDeps.init) strayRun = some t ∧
    t.removes = [⟨"w", .done .ack []⟩] ∧ t.deps.usedIds = ["s"] ∧ NoOrphan t := by
  have hlast : (run (init ServerDeps.init) strayRun).map (fun t => (t.removes, t.deps.usedIds)) =
      some ([⟨"w", .done .ack []⟩], ["s"]) := by decide
  obtain ⟨t, ht, heq⟩ := Option.map_eq_some_iff.1 hlast
  obtain ⟨hr, hu⟩ := Prod.mk.inj heq
  have hd : ServerDeps.run ServerDeps.init [] = some ServerDeps.init := rfl
  exact ⟨t, ht, hr, hu, no_orphan_of_safe hd (by decide) ht⟩

/-- A creation passes its gates, and starts its child only when the strays have been read: its
session outlives its workspace. -/
theorem slow_create_orphaned : ¬ ∀ (ops : List ServerDeps.Op) (d : ServerDeps)
    (as : List RemovalAct) (t : RemovalSys), ServerDeps.run ServerDeps.init ops = some d →
      run (init d) as = some t → NoOrphan t := by
  intro h
  let as : List RemovalAct :=
    [.createWorkspace "w", .startCreate "w", .create 0, .create 0, .startRemove "w"] ++
      List.replicate 13 (.remove 0 (.signaled "Terminated")) ++
      .spawn 0 ⟨"zsh", "/bin/zsh", "/", 80, 24⟩ "s" 0 :: List.replicate 4 (.create 0)
  have hlast : (run (init ServerDeps.init) as).map (fun t =>
      (t.removes, t.creates.map (·.pc.isDone),
        t.deps.sessions.rows.map fun x => (x.shared.workspaceId, x.live))) =
      some ([⟨"w", .done .ack [0]⟩], [true], [("w", true)]) := by decide
  obtain ⟨t, ht, heq⟩ := Option.map_eq_some_iff.1 hlast
  simp only [Prod.mk.injEq] at heq
  obtain ⟨hr, hc, hx⟩ := heq
  have hdone (i : ℕ) (c : CreateReq) (hi : t.creates[i]? = some c) : c.pc.isDone := by
    have := List.mem_map_of_mem (f := (·.pc.isDone)) (List.mem_of_getElem? hi)
    rw [hc] at this
    exact List.mem_singleton.1 this
  obtain ⟨x, hmem, hw⟩ :
      ∃ x ∈ t.deps.sessions.rows, (x.shared.workspaceId, x.live) = ("w", true) := by
    have : ("w", true) ∈ t.deps.sessions.rows.map fun x => (x.shared.workspaceId, x.live) := by
      rw [hx]
      exact List.mem_singleton_self _
    exact List.mem_map.1 this
  obtain ⟨hw, hlive⟩ := Prod.mk.inj hw
  exact h [] _ as t rfl ht ⟨"w", .done .ack [0]⟩ (by rw [hr]; exact List.mem_singleton_self _) [0]
    rfl (fun i _ c hi => hdone i c hi) x hmem hw hlive

end RemovalSys

end BuilderPro
