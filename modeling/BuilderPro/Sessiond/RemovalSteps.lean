import BuilderPro.Sessiond.DaemonRuns
import BuilderPro.Sessiond.Removal

/-!
# The steps of a removal

Once a removal has read the strays of its workspace, every live session of the workspace is still to
be closed by it and no creation of the workspace is on its way to the map (`RemovalSys.RemovalInv`).
The daemon's own steps and the steps of removals keep this.
-/

namespace BuilderPro

/-- The session that is in the map, and not in the live sessions yet. -/
def CreatePc.registering : CreatePc → Option String
  | .getMeta id => some id
  | .track m => some m.id
  | _ => none

/-- The session whose id the request holds. -/
def CreatePc.held : CreatePc → Option String
  | .getMeta id => some id
  | .track m => some m.id
  | .persist m => some m.id
  | _ => none

/-- Past the gates, and not in the live sessions yet. -/
def CreatePc.unregistered : CreatePc → Bool
  | .create => true
  | .insert _ => true
  | .getMeta _ => true
  | .track _ => true
  | _ => false

/-- The ids a removal has still to do with. -/
def RemovePc.ids : RemovePc → List String
  | .beginClosing ids => ids
  | .readTracked ids => ids
  | .collect ids tracked => ids ++ tracked
  | .next _ rest => rest
  | .check id rest => id :: rest
  | .close _ id rest _ => id :: rest
  | .untrack _ id rest => id :: rest
  | _ => []

/-- The session that the removal has found closed, or has closed. -/
def RemovePc.closed : RemovePc → Option String
  | .close _ _ _ .kill => none
  | .close _ id _ _ => some id
  | .untrack _ id _ => some id
  | _ => none

/-- The strays that are left to close, from the reading of the live sessions on. -/
def RemovePc.todo : RemovePc → Option (List String)
  | .next .strays rest => some rest
  | .check id rest => some (id :: rest)
  | .close .strays id rest .kill => some (id :: rest)
  | .close .strays _ rest _ => some rest
  | .untrack .strays _ rest => some rest
  | .drain .strays => some []
  | .await .strays _ => some []
  | .finish .ack => some []
  | .done .ack _ => some []
  | _ => none

/-- The workspace's rows are deleted. -/
def RemovePc.deleted : RemovePc → Bool
  | .readStrays => true
  | pc => pc.todo.isSome

namespace RemovalSys

/-- Once a removal is acknowledged and the creations in flight at that time are done, no session of
the workspace is live. -/
def NoOrphan (s : RemovalSys) : Prop :=
  ∀ r ∈ s.removes, ∀ inFlight, r.pc = .done .ack inFlight →
    (∀ i ∈ inFlight, ∀ c, s.creates[i]? = some c → c.pc.isDone) →
    ∀ x ∈ s.deps.sessions.rows, x.shared.workspaceId = r.workspaceId → ¬ x.live

/-- The creations of the workspace are registered when its strays are read. -/
def removalSafe (s : RemovalSys) : RemovalAct → Bool
  | .remove j _ =>
    match s.removes[j]? with
    | some ⟨w, .readStrays⟩ => s.creates.all fun c => c.workspaceId != w || !c.pc.unregistered
    | _ => true
  | _ => true

/-! ## The invariant -/

structure RemoveOk (s : RemovalSys) (r : RemoveReq) : Prop where
  ids : ∀ id ∈ r.pc.ids, id ∈ s.deps.usedIds
  closed : ∀ id, r.pc.closed = some id → ∀ w, s.deps.tracked id ≠ some (w, true)
  deleted : r.pc.deleted → r.workspaceId ∈ s.workspaceIds ∧ r.workspaceId ∉ s.deps.db.workspaces
  swept : ∀ todo, r.pc.todo = some todo →
    (∀ id, s.deps.tracked id = some (r.workspaceId, true) → id ∈ todo) ∧
      ∀ c ∈ s.creates, c.workspaceId = r.workspaceId → c.pc.unregistered = false

structure RemovalInv (s : RemovalSys) : Prop where
  used : ∀ id, s.deps.Known id → id ∈ s.deps.usedIds
  live : ∀ id ∈ s.deps.liveSessions, id ∈ s.deps.usedIds
  workspaces : ∀ w ∈ s.deps.db.workspaces, w ∈ s.workspaceIds
  starting : ∀ (i : ℕ) (w : String) (x : Session), s.creates[i]? = some (.mk w (.insert x)) →
    x.shared.workspaceId = w ∧ x.id ∉ s.deps.usedIds
  distinct : ∀ (i j : ℕ) (w v : String) (x y : Session), s.creates[i]? = some (.mk w (.insert x)) →
    s.creates[j]? = some (.mk v (.insert y)) → x.id = y.id → i = j
  held : ∀ c ∈ s.creates, ∀ id, c.pc.held = some id → id ∈ s.deps.usedIds
  registered : ∀ id w, s.deps.tracked id = some (w, true) → id ∈ s.deps.liveSessions ∨
    ∃ (i : ℕ) (pc : CreatePc), s.creates[i]? = some ⟨w, pc⟩ ∧ pc.registering = some id
  removes : ∀ r ∈ s.removes, RemoveOk s r

variable {s t : RemovalSys} {e : ServerDeps} {w : String}

/-! ## Steps of the daemon and of removals -/

theorem RemoveOk.evolve {r : RemoveReq} (h : RemoveOk s r) (hev : s.deps.Evolves e) :
    RemoveOk (s.withDeps e) r where
  ids id hid := hev.usedIds ▸ h.ids id hid
  closed id hid w hw := h.closed id hid w (hev.tracked_some hw)
  deleted hd := ⟨(h.deleted hd).1, fun hw => (h.deleted hd).2 (hev.workspaces _ hw)⟩
  swept todo ht := ⟨fun id hw => (h.swept todo ht).1 id (hev.tracked_some hw), (h.swept todo ht).2⟩

theorem RemovalInv.evolve (h : RemovalInv s) (hev : s.deps.Evolves e) :
    RemovalInv (s.withDeps e) where
  used id hk := hev.usedIds ▸ h.used id (hev.known id hk)
  live id hl := hev.usedIds ▸ h.live id (hev.liveSub id hl)
  workspaces w hw := h.workspaces w (hev.workspaces w hw)
  starting i w x hc :=
    ⟨(h.starting i w x hc).1, fun hu => (h.starting i w x hc).2 (hev.usedIds ▸ hu)⟩
  distinct := h.distinct
  held c hc id hid := hev.usedIds ▸ h.held c hc id hid
  registered id w hw := (h.registered id w (hev.tracked_some hw)).imp_left fun hl =>
    hev.live id hl ⟨w, hw⟩
  removes r hr := (h.removes r hr).evolve hev

/-- A removal that has gone on as its new state allows. -/
theorem RemovalInv.setRemove (h : RemovalInv s) {j : ℕ} {r : RemoveReq} {pc : RemovePc}
    (hr : RemoveOk s { r with pc := pc }) : RemovalInv (s.setRemove j r pc) where
  used := h.used
  live := h.live
  workspaces := h.workspaces
  starting := h.starting
  distinct := h.distinct
  held := h.held
  registered := h.registered
  removes r' hr' := by
    have hok : RemoveOk s r' := by
      rcases List.mem_or_eq_of_mem_set hr' with hr' | rfl
      · exact h.removes r' hr'
      · exact hr
    exact ⟨hok.ids, hok.closed, hok.deleted, hok.swept⟩

theorem deleted_of_todo {pc : RemovePc} {todo : List String} (h : pc.todo = some todo) :
    pc.deleted := by
  unfold RemovePc.deleted
  split
  · rfl
  · rw [h]
    rfl

theorem ids_of_closed {pc : RemovePc} {id : String} (h : pc.closed = some id) : id ∈ pc.ids := by
  unfold RemovePc.closed at h
  split at h <;> cases h <;> exact List.mem_cons_self

/-- A removal that has nothing to do with strays yet. -/
theorem removeOk_of_ids {r : RemoveReq} (hids : ∀ id ∈ r.pc.ids, id ∈ s.deps.usedIds)
    (hc : r.pc.closed = none) (hd : r.pc.deleted = false) : RemoveOk s r where
  ids := hids
  closed id hid := by
    rw [hc] at hid
    cases hid
  deleted h := by
    rw [hd] at h
    cases h
  swept todo ht := by
    have := deleted_of_todo ht
    rw [hd] at this
    cases this

theorem evolves_closeStep {d : ServerDeps} {id : String} {status : ExitStatus} {pc : ClosePc}
    (h : pc ≠ .kill → ∀ w, d.tracked id ≠ some (w, true)) :
    d.Evolves (d.closeStep id status pc).1 := by
  unfold ServerDeps.closeStep
  split
  · split
    · rename_i e he
      exact (ServerDeps.kill_eq_some he).2.2
    · exact .refl d
  · split <;> exact .refl d
  · exact ServerDeps.evolves_sessions (fun _ => rfl) rfl rfl rfl rfl
  · exact ServerDeps.evolves_removeInactive id
  · exact ServerDeps.evolves_untrack (h (by simp))
  · exact ServerDeps.evolves_deleteSession id

/-- After its first step, the session is not in the map with a PTY. -/
theorem closeStep_closed {d : ServerDeps} {id : String} {status : ExitStatus} {pc : ClosePc}
    (h : pc ≠ .kill → ∀ w, d.tracked id ≠ some (w, true)) (w : String) :
    (d.closeStep id status pc).1.tracked id ≠ some (w, true) := by
  by_cases hpc : pc = .kill
  · subst hpc
    unfold ServerDeps.closeStep
    dsimp only
    split
    · rename_i e he
      rw [(ServerDeps.kill_eq_some he).2.1]
      simp
    · rename_i he
      exact ServerDeps.kill_eq_none he w
  · exact fun hw => h hpc w ((evolves_closeStep h).tracked_some hw)

/-- A removal goes on with ids it had, and with what is left of its strays. -/
theorem RemoveOk.goto {r : RemoveReq} (h : RemoveOk s r) (pc : RemovePc)
    (hids : ∀ id ∈ pc.ids, id ∈ r.pc.ids)
    (hc : ∀ id, pc.closed = some id → ∀ w, s.deps.tracked id ≠ some (w, true))
    (hd : pc.deleted → r.pc.deleted)
    (ht : ∀ todo', pc.todo = some todo' → ∃ todo, r.pc.todo = some todo ∧
      ∀ id ∈ todo, s.deps.tracked id = some (r.workspaceId, true) → id ∈ todo') :
    RemoveOk s { r with pc := pc } where
  ids id hid := h.ids id (hids id hid)
  closed := hc
  deleted hdel := h.deleted (hd hdel)
  swept todo' htodo := by
    obtain ⟨todo, ht, hsub⟩ := ht todo' htodo
    obtain ⟨h1, h2⟩ := h.swept todo ht
    exact ⟨fun id hw => hsub id (h1 id hw) hw, h2⟩

/-- A step of a removal that changes what the requests share, and goes on. -/
theorem RemovalInv.remove (h : RemovalInv s) {j : ℕ} {r : RemoveReq} (hj : s.removes[j]? = some r)
    (hev : s.deps.Evolves e) (pc : RemovePc) (hids : ∀ id ∈ pc.ids, id ∈ r.pc.ids)
    (hc : ∀ id, pc.closed = some id → ∀ w, e.tracked id ≠ some (w, true))
    (hd : pc.deleted → r.pc.deleted)
    (ht : ∀ todo', pc.todo = some todo' → ∃ todo, r.pc.todo = some todo ∧
      ∀ id ∈ todo, e.tracked id = some (r.workspaceId, true) → id ∈ todo') :
    RemovalInv ((s.withDeps e).setRemove j r pc) :=
  (h.evolve hev).setRemove
    (((h.removes r (List.mem_of_getElem? hj)).evolve hev).goto pc hids hc hd ht)

theorem todo_close_of_ne {sweep : Sweep} {id : String} {rest : List String} {pc : ClosePc}
    (h : pc ≠ .kill) : (RemovePc.close sweep id rest pc).todo =
      (RemovePc.untrack sweep id rest).todo := by
  cases sweep <;> cases pc <;> first | rfl | exact absurd rfl h

theorem closed_close_of_ne {sweep : Sweep} {id : String} {rest : List String} {pc : ClosePc}
    (h : pc ≠ .kill) : (RemovePc.close sweep id rest pc).closed = some id := by
  cases pc <;> first | rfl | exact absurd rfl h

/-- What is left of a teardown does not start with the kill. -/
theorem closeStep_rest {d : ServerDeps} {id : String} {status : ExitStatus} {pc pc' : ClosePc}
    (h : (d.closeStep id status pc).2 = some pc') : pc' ≠ .kill := by
  unfold ServerDeps.closeStep at h
  split at h
  · split at h <;> cases h
    simp
  · split at h
    · split_ifs at h
      cases h
      simp
    · cases h
  all_goals
    cases h
    try simp

/-- A step of a teardown. -/
theorem removalInv_close (h : RemovalInv s) {j : ℕ} {r : RemoveReq} (hj : s.removes[j]? = some r)
    {sweep : Sweep} {id : String} {rest : List String} {pc : ClosePc} (status : ExitStatus)
    (hpc : r.pc = .close sweep id rest pc) :
    RemovalInv ((s.withDeps (s.deps.closeStep id status pc).1).setRemove j r
      (match (s.deps.closeStep id status pc).2 with
        | some pc => .close sweep id rest pc
        | none => .untrack sweep id rest)) := by
  have hok := h.removes r (List.mem_of_getElem? hj)
  have hopen : pc ≠ .kill → ∀ w, s.deps.tracked id ≠ some (w, true) :=
    fun hne => hok.closed id (by rw [hpc]; exact closed_close_of_ne hne)
  have hclosed := @closeStep_closed _ _ status _ hopen
  have htodo (todo' : List String) (ht : (RemovePc.untrack sweep id rest).todo = some todo') :
      ∃ todo, r.pc.todo = some todo ∧ ∀ id' ∈ todo,
        (s.deps.closeStep id status pc).1.tracked id' = some (r.workspaceId, true) →
          id' ∈ todo' := by
    by_cases hne : pc = .kill
    · subst hne
      cases sweep <;> cases ht
      refine ⟨id :: rest, by rw [hpc]; rfl, fun id' hid hw => ?_⟩
      rcases List.mem_cons.1 hid with rfl | hid
      · exact absurd hw (hclosed r.workspaceId)
      · exact hid
    · exact ⟨todo', by rw [hpc, todo_close_of_ne hne, ht], fun _ hid _ => hid⟩
  have hdel : (RemovePc.untrack sweep id rest).deleted → r.pc.deleted := by
    rw [hpc]
    cases sweep <;> cases pc <;> simp [RemovePc.deleted, RemovePc.todo]
  cases hrest : (s.deps.closeStep id status pc).2 with
  | none =>
    refine h.remove hj (evolves_closeStep hopen) _ ?_ ?_ hdel htodo
    · rw [hpc]
      exact fun _ hid => hid
    · rintro _ ⟨⟩
      exact hclosed
  | some pc' =>
    have hne := closeStep_rest hrest
    refine h.remove hj (evolves_closeStep hopen) _ ?_ ?_ ?_ ?_
    · rw [hpc]
      exact fun _ hid => hid
    · rw [closed_close_of_ne hne]
      rintro _ ⟨⟩
      exact hclosed
    · intro hd
      refine hdel ?_
      cases sweep <;> cases pc' <;> first | exact absurd rfl hne | exact hd
    · rw [todo_close_of_ne hne]
      exact htodo

/-- A step of a removal that leaves it as much to do with strays as before. -/
theorem RemovalInv.pass (h : RemovalInv s) {j : ℕ} {r : RemoveReq} (hj : s.removes[j]? = some r)
    (hev : s.deps.Evolves e) (pc : RemovePc) (hids : ∀ id ∈ pc.ids, id ∈ r.pc.ids)
    (hc : pc.closed = none) (ht : pc.todo = r.pc.todo) (hd : pc.deleted = r.pc.deleted) :
    RemovalInv ((s.withDeps e).setRemove j r pc) := by
  refine h.remove hj hev pc hids (fun id hid => ?_) (fun hdel => hd ▸ hdel)
    fun todo' htodo => ⟨todo', ht ▸ htodo, fun _ hid _ => hid⟩
  rw [hc] at hid
  cases hid

/-- The removal leaves a stray that is not of its workspace, and starts to close one that is. -/
theorem removalInv_check (h : RemovalInv s) {j : ℕ} {r : RemoveReq} (hj : s.removes[j]? = some r)
    {id : String} {rest : List String} (hpc : r.pc = .check id rest) :
    RemovalInv (s.setRemove j r
      (if s.deps.belongs r.workspaceId id then .close .strays id rest .kill
        else .next .strays rest)) := by
  refine h.setRemove ((h.removes r (List.mem_of_getElem? hj)).goto _ (fun id' hid => ?_) ?_ ?_ ?_)
  · rw [hpc]
    split_ifs at hid
    · exact hid
    · exact List.mem_cons_of_mem _ hid
  · split_ifs <;> nofun
  · rw [hpc]
    exact fun _ => rfl
  · rw [hpc]
    split_ifs with hb
    · rintro _ ⟨⟩
      exact ⟨_, rfl, fun _ hid _ => hid⟩
    · rintro _ ⟨⟩
      refine ⟨_, rfl, fun id' hid hw => (List.mem_cons.1 hid).resolve_left ?_⟩
      rintro rfl
      exact hb (ServerDeps.belongs_iff.2 ⟨true, hw⟩)

/-- From its deletion on, the workspace's id is one that was given, and is not there. -/
theorem removalInv_delete (h : RemovalInv s) (j : ℕ) {r : RemoveReq} {db : Db}
    (hdb : s.deps.db.deleteWorkspace r.workspaceId = some db) :
    RemovalInv ((s.withDeps { s.deps with db := db }).setRemove j r .readStrays) := by
  have hev := ServerDeps.evolves_deleteWorkspace hdb
  obtain ⟨ids, hids, -⟩ := Option.map_eq_some_iff.1 hdb
  refine (h.evolve hev).setRemove ⟨nofun, nofun, fun _ => ⟨h.workspaces _ ?_, fun hw => ?_⟩, nofun⟩
  · exact Db.workspaceSessionIds_mem hids
  · have hw' : r.workspaceId ∈ db.workspaces := hw
    simp [(Db.deleteWorkspace_eq_some hdb).1] at hw'

/-- With its creations registered, the workspace's live sessions are among the strays. -/
theorem removalInv_readStrays (h : RemovalInv s) {j : ℕ} {r : RemoveReq}
    (hj : s.removes[j]? = some r) (hpc : r.pc = .readStrays)
    (hun : ∀ c ∈ s.creates, c.workspaceId = r.workspaceId → c.pc.unregistered = false) :
    RemovalInv (s.setRemove j r (.next .strays s.deps.liveSessions)) := by
  have hok := h.removes r (List.mem_of_getElem? hj)
  refine h.setRemove ⟨h.live, nofun, fun _ => hok.deleted (by rw [hpc]; rfl), ?_⟩
  rintro _ ⟨⟩
  refine ⟨fun id hw => (h.registered id _ hw).resolve_right ?_, hun⟩
  rintro ⟨i, pc, hi, hreg⟩
  have := hun _ (List.mem_of_getElem? hi) rfl
  cases pc <;> cases hreg <;> cases this

theorem removalInv_removeStep (h : RemovalInv s) {j : ℕ} {r : RemoveReq} {status : ExitStatus}
    (hj : s.removes[j]? = some r) (hsafe : s.removalSafe (.remove j status))
    (ht : s.removeStep j r status = some t) : RemovalInv t := by
  have hok := h.removes r (List.mem_of_getElem? hj)
  have hrefl : s.deps.Evolves s.deps := .refl _
  unfold removeStep at ht
  rcases hpc : r.pc with _ | ids | ids | ⟨ids, _ | ⟨id, tracked⟩⟩ | ⟨sweep, _ | ⟨id, rest⟩⟩ |
    ⟨id, rest⟩ | ⟨sweep, id, rest, pc⟩ | ⟨sweep, id, rest⟩ | sweep | ⟨sweep, handles⟩ | _ | _ |
    reply | ⟨reply, inFlight⟩ <;> simp only [hpc] at ht
  case victims =>
    split at ht <;> cases ht
    · rename_i ids hids
      refine h.setRemove (removeOk_of_ids (fun id hid => h.used id ?_) rfl rfl)
      obtain ⟨row, hrow, -⟩ := (Db.mem_workspaceSessionIds hids).1 hid
      exact .inr (.inl (by rw [hrow]; rfl))
    · exact h.setRemove (removeOk_of_ids (by simp [RemovePc.ids]) rfl rfl)
  case beginClosing =>
    cases ht
    exact h.pass hj (ServerDeps.evolves_closing _) _ (by rw [hpc]; exact fun _ hid => hid) rfl
      (by rw [hpc]; rfl) (by rw [hpc]; rfl)
  case readTracked =>
    cases ht
    refine h.setRemove (removeOk_of_ids (fun id hid => ?_) rfl rfl)
    rcases List.mem_append.1 hid with hid | hid
    · exact hok.ids id (by rw [hpc]; exact hid)
    · exact h.live id hid
  case collect.nil =>
    cases ht
    refine h.pass hj hrefl _ ?_ rfl ?_ ?_ <;> rw [hpc]
    · exact fun _ hid => List.mem_append_left _ hid
    · rfl
    · rfl
  case collect.cons =>
    cases ht
    refine h.pass hj hrefl _ (fun id' hid => ?_) rfl ?_ ?_ <;> rw [hpc]
    · simp only [RemovePc.ids, List.mem_append, List.mem_cons] at hid ⊢
      split_ifs at hid
      · rw [List.mem_insert_iff] at hid
        tauto
      · tauto
    · rfl
    · rfl
  case next.nil =>
    cases ht
    refine h.pass hj hrefl _ nofun rfl ?_ ?_ <;> rw [hpc] <;> cases sweep <;> rfl
  case next.cons => cases ht
  case check =>
    cases ht
    exact removalInv_check h hj hpc
  case close =>
    cases ht
    exact removalInv_close h hj status hpc
  case untrack =>
    cases ht
    have hev := ServerDeps.evolves_untrack (hok.closed id (by rw [hpc]; rfl))
    refine h.pass hj hev _ ?_ rfl ?_ ?_ <;> rw [hpc]
    · exact fun _ hid => List.mem_cons_of_mem _ hid
    all_goals cases sweep <;> rfl
  case drain =>
    cases ht
    have hev : s.deps.Evolves { s.deps with pendingFinalFlushes := [] } :=
      ServerDeps.evolves_sessions (fun _ => rfl) rfl rfl rfl rfl
    refine h.pass hj hev _ nofun rfl ?_ ?_ <;> rw [hpc] <;> cases sweep <;> rfl
  case await =>
    split_ifs at ht
    cases ht
    cases sweep <;> exact h.pass hj hrefl _ nofun rfl (by rw [hpc]; rfl) (by rw [hpc]; rfl)
  case delete =>
    split at ht <;> cases ht
    · rename_i db hdb
      exact removalInv_delete h j hdb
    · exact h.pass hj hrefl _ nofun rfl (by rw [hpc]; rfl) (by rw [hpc]; rfl)
  case readStrays =>
    cases ht
    refine removalInv_readStrays h hj hpc fun c hc hw => ?_
    have hr : r = ⟨r.workspaceId, .readStrays⟩ := by rw [← hpc]
    rw [hr] at hj
    simp only [removalSafe, hj, List.all_eq_true, Bool.or_eq_true, bne_iff_ne,
      Bool.not_eq_true'] at hsafe
    exact (hsafe c hc).resolve_left (not_not.2 hw)
  case finish =>
    cases ht
    refine h.pass hj (ServerDeps.evolves_closing _) _ nofun rfl ?_ ?_ <;> rw [hpc] <;>
      cases reply <;> rfl
  case done => cases ht

theorem removalInv_pickStep (h : RemovalInv s) {j : ℕ} {r : RemoveReq} {id : String}
    (hj : s.removes[j]? = some r) (ht : s.pickStep j r id = some t) : RemovalInv t := by
  have hok := h.removes r (List.mem_of_getElem? hj)
  have hperm {rest : List String} (hin : id ∈ rest) (id' : String) :
      id' ∈ id :: rest.erase id ↔ id' ∈ rest := (List.perm_cons_erase hin).mem_iff.symm
  unfold pickStep at ht
  split at ht
  · rename_i rest hpc
    split_ifs at ht with hin
    cases ht
    refine h.setRemove (hok.goto _ (fun id' hid => ?_) nofun nofun nofun)
    rw [hpc]
    exact (hperm hin id').1 hid
  · rename_i rest hpc
    split_ifs at ht with hin
    cases ht
    refine h.setRemove (hok.goto _ (fun id' hid => ?_) nofun ?_ ?_) <;> rw [hpc]
    · exact (hperm hin id').1 hid
    · exact fun _ => rfl
    · rintro _ ⟨⟩
      exact ⟨rest, rfl, fun id' hid _ => (hperm hin id').2 hid⟩
  · cases ht

end RemovalSys

end BuilderPro
