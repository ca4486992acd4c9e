import BuilderPro.App.WorkspaceRoots

/-!
# The registered roots converge

Replies are taken over when their command resumes.  At rest the cache has the daemon's workspaces
with their roots in every run in which no reply is taken over after everything newer
(`cache_eq_daemon`).
-/

namespace BuilderPro

/-- The core and the daemon: requests of the core that are not served yet, pushes on the
connection, and replies whose commands have not resumed, each with the number of pushes that the
daemon had sent by then. -/
structure RootsState (s : FileTree) where
  db : WorkspaceTable s
  requests : List WorkspaceRequest
  /-- All pushes there have been. -/
  sent : List WorkspacePush
  pushes : List WorkspacePush
  replies : List (ℕ × WorkspaceReply)
  slot : WorkspaceRootsCache

inductive RootsAction
  | send (r : WorkspaceRequest)
  | serve (i : ℕ)
  | serveOther (r : WorkspaceRequest)
  | applyPush
  | resume (i : ℕ)

namespace RootsState

variable {s : FileTree}

/-- The app starts with a list request. -/
def init (db : WorkspaceTable s) : RootsState s :=
  ⟨db, [.listWorkspaces], [], [], [], .neverLoaded⟩

variable (st : RootsState s)

def served (r : WorkspaceRequest) : RootsState s :=
  { st with
    db := (st.db.serve r).1
    sent := st.sent ++ (st.db.serve r).2.2.toList
    pushes := st.pushes ++ (st.db.serve r).2.2.toList }

def step : RootsAction → Option (RootsState s)
  | .send r => some { st with requests := st.requests ++ [r] }
  | .serve i =>
    st.requests[i]?.map fun r =>
      { st.served r with
        requests := st.requests.eraseIdx i
        replies := st.replies ++ [((st.served r).sent.length, (st.db.serve r).2.1)] }
  | .serveOther r => some (st.served r)
  | .applyPush =>
    match st.pushes with
    | p :: pushes =>
      some { st with pushes := pushes, slot := st.slot.applyWorkspacePush s p }
    | [] => none
  | .resume i =>
    st.replies[i]?.map fun r =>
      { st with replies := st.replies.eraseIdx i, slot := st.slot.applyReply s r.2 }

def AtRest : Prop := st.requests = [] ∧ st.pushes = [] ∧ st.replies = []

/-- Whether a push about the workspace has been sent since there were `n`. -/
def outdated (id : String) (n : ℕ) : Bool :=
  (st.sent.drop n).any fun p => p.workspaceId = id

/-- Something about the workspace that is newer than all that has been sent, or as new, is on its
way: its last push, a reply since that, or the answer to a list request. -/
def NewestComing (replies : List (ℕ × WorkspaceReply)) (id : String) : Prop :=
  .listWorkspaces ∈ st.requests ∨ (∃ p ∈ st.pushes, p.workspaceId = id) ∨
    ∃ q ∈ replies, q.2.speaksOf id = true ∧ st.outdated id q.1 = false

instance (replies : List (ℕ × WorkspaceReply)) (id : String) :
    Decidable (st.NewestComing replies id) :=
  inferInstanceAs (Decidable (_ ∨ _ ∨ ∃ q ∈ replies, _))

/-- A reply is taken over while none of the workspaces it speaks of is the subject of a push sent
since, or while what is newest about it is still on its way. -/
def InTime : RootsAction → Prop
  | .resume i => ∀ r ∈ st.replies[i]?, ∀ p ∈ st.sent.drop r.1,
      r.2.speaksOf p.workspaceId = true →
        st.NewestComing (st.replies.eraseIdx i) p.workspaceId
  | _ => True

instance : (a : RootsAction) → Decidable (st.InTime a)
  | .resume i => inferInstanceAs (Decidable (∀ r ∈ st.replies[i]?, _))
  | .send _ | .serve _ | .serveOther _ | .applyPush => isTrue trivial

/-- What is on its way makes the roots of a workspace those the daemon has, with `replies` yet to be
taken over. -/
def OnCourse (replies : List (ℕ × WorkspaceReply)) (id : String) (v : Option (List PathBuf)) :
    Prop :=
  Replica.OnCourse (WorkspacePush.act s id) st.pushes (replies.filterMap (·.2.tells s id))
    (.listWorkspaces ∈ st.requests) (st.db.rootsOf id) v

/-- Each workspace's cached roots are on course, and the cache is loaded or going to be. -/
structure Inv : Prop where
  suffix : st.pushes <:+ st.sent
  settled : ∀ id, Replica.Settled (WorkspacePush.act s id) st.sent (st.db.rootsOf id)
  told : ∀ r ∈ st.replies, r.1 ≤ st.sent.length ∧ ∀ id, ∀ v ∈ r.2.tells s id,
    Replica.after (WorkspacePush.act s id) (st.sent.drop r.1) v = st.db.rootsOf id
  onCourse : ∀ id, st.OnCourse st.replies id (st.slot.lookup id)
  loaded : st.slot ≠ .neverLoaded ∨ .listWorkspaces ∈ st.requests ∨
    ∃ r ∈ st.replies, ∃ list, r.2 = .workspaces list

theorem inv_init (db : WorkspaceTable s) : (init db).Inv where
  suffix := List.suffix_rfl
  settled _ := Replica.settled_nil
  told _ h := absurd h List.not_mem_nil
  onCourse _ := .inl List.mem_cons_self
  loaded := .inr (.inl List.mem_cons_self)

variable {st}

theorem settled_served {id : String} (h : st.Inv) (r : WorkspaceRequest) :
    Replica.Settled (WorkspacePush.act s id) (st.served r).sent ((st.served r).db.rootsOf id) := by
  have htells := (WorkspaceTable.tells_serve st.db r).push id
  rcases hp : (st.db.serve r).2.2 with _ | p
  · simpa [served, hp, htells] using h.settled id
  · simpa [served, hp, htells] using (h.settled id).push (plain_act p)

theorem onCourse_served {id : String} {replies : List (ℕ × WorkspaceReply)}
    {v : Option (List PathBuf)} (h : st.OnCourse replies id v) (r : WorkspaceRequest) :
    (st.served r).OnCourse replies id v := by
  have htells := (WorkspaceTable.tells_serve st.db r).push id
  rcases hp : (st.db.serve r).2.2 with _ | p
  · simpa [served, OnCourse, hp, htells] using h
  · simpa [served, OnCourse, hp, htells] using Replica.OnCourse.push (p := p) h

/-- What a reply told is what there was then. -/
theorem told_served (h : st.Inv) (r : WorkspaceRequest) {q : ℕ × WorkspaceReply}
    (hq : q ∈ st.replies) : q.1 ≤ (st.served r).sent.length ∧ ∀ id, ∀ v ∈ q.2.tells s id,
      Replica.after (WorkspacePush.act s id) ((st.served r).sent.drop q.1) v =
        (st.served r).db.rootsOf id := by
  obtain ⟨hle, htold⟩ := h.told q hq
  refine ⟨Nat.le_trans hle (by simp [served]), fun id v hv => ?_⟩
  have hv := htold id v hv
  have htells := (WorkspaceTable.tells_serve st.db r).push id
  rw [served, List.drop_append_of_le_length hle]
  rcases hp : (st.db.serve r).2.2 with _ | p
  · simpa [hp, htells] using hv
  · simp [hp, htells, hv]

theorem Inv.served (h : st.Inv) (r : WorkspaceRequest) : (st.served r).Inv where
  suffix := by
    obtain ⟨l, hl⟩ := h.suffix
    exact ⟨l, by simp only [RootsState.served, ← List.append_assoc, hl]⟩
  settled _ := settled_served h r
  told _ hq := told_served h r hq
  onCourse _ := onCourse_served (h.onCourse _) r
  loaded := h.loaded

/-- The pushes that are still to be applied lead to nothing else. -/
theorem Inv.settledPushes (h : st.Inv) (id : String) :
    Replica.Settled (WorkspacePush.act s id) st.pushes (st.db.rootsOf id) := fun qs hqs =>
  h.settled id qs (hqs.trans h.suffix)

/-- A request of the core is served, and its reply is on its way. -/
theorem Inv.serve {i : ℕ} {r : WorkspaceRequest} (h : st.Inv) (hr : st.requests[i]? = some r) :
    Inv { st.served r with
      requests := st.requests.eraseIdx i
      replies := st.replies ++ [((st.served r).sent.length, (st.db.serve r).2.1)] } where
  suffix := (h.served r).suffix
  settled _ := settled_served h r
  told q hq := by
    rcases List.mem_append.1 hq with hq | hq
    · exact told_served h r hq
    · obtain rfl := List.mem_singleton.1 hq
      refine ⟨Nat.le_refl _, fun id v hv => ?_⟩
      dsimp only
      rw [List.drop_length, Replica.after_nil]
      exact (WorkspaceTable.tells_serve st.db r).reply id v hv
  onCourse id := by
    by_cases hlist : r = .listWorkspaces
    · subst hlist
      exact ((h.served .listWorkspaces).settledPushes id).answer (List.mem_filterMap.2
        ⟨_, List.mem_append_right _ List.mem_cons_self, congrArg some
          ((WorkspaceTable.tells_serve st.db .listWorkspaces).reply id _ rfl)⟩)
    · refine (onCourse_served (h.onCourse id) r).mono (fun w hw => ?_) fun hasked => ?_
      · rw [List.filterMap_append]
        exact List.mem_append_left _ hw
      · exact Slots.mem_eraseIdx_of_ne hr hasked (Ne.symm hlist)
  loaded := by
    by_cases hlist : r = .listWorkspaces
    · subst hlist
      exact .inr (.inr ⟨_, List.mem_append_right _ List.mem_cons_self, _, rfl⟩)
    · refine h.loaded.imp id (Or.imp (fun hasked => ?_) fun ⟨q, hq, hmem⟩ => ?_)
      · exact Slots.mem_eraseIdx_of_ne hr hasked (Ne.symm hlist)
      · exact ⟨q, List.mem_append_left _ hq, hmem⟩

theorem slot_ne_neverLoaded_of_push (p : WorkspacePush) (h : st.slot ≠ .neverLoaded) :
    st.slot.applyWorkspacePush s p ≠ .neverLoaded := by
  rcases hslot : st.slot with _ | map
  · exact absurd hslot h
  · rcases p <;> simp [WorkspaceRootsCache.applyWorkspacePush,
      WorkspaceRootsCache.upsertWorkspaceRoots, WorkspaceRootsCache.removeWorkspaceRoots]

theorem Inv.applyPush {p : WorkspacePush} {pushes : List WorkspacePush} (h : st.Inv)
    (hp : st.pushes = p :: pushes) :
    Inv { st with pushes := pushes, slot := st.slot.applyWorkspacePush s p } where
  suffix := (List.suffix_cons p pushes).trans (hp ▸ h.suffix)
  settled := h.settled
  told := h.told
  onCourse id := by
    have hon := h.onCourse id
    rw [OnCourse, hp] at hon
    have := hon.deliver (plain_act p)
    rwa [← lookup_applyWorkspacePush] at this
  loaded := h.loaded.imp (slot_ne_neverLoaded_of_push p) id

/-- What a reply tells of a workspace that no push has been about since is what there is. -/
theorem Inv.eq_rootsOf (h : st.Inv) {q : ℕ × WorkspaceReply} (hq : q ∈ st.replies) {id : String}
    {v : Option (List PathBuf)} (hv : v ∈ q.2.tells s id) (hnew : st.outdated id q.1 = false) :
    v = st.db.rootsOf id := by
  have htold := (h.told q hq).2 id v hv
  rwa [Replica.after_eq_self fun p hp => act_of_ne ?_ v] at htold
  simpa using List.any_eq_false.1 hnew p hp

theorem Inv.onCourse_tells {i : ℕ} {r : ℕ × WorkspaceReply} (h : st.Inv)
    (hr : st.replies[i]? = some r) (hc : st.InTime (.resume i)) {id : String}
    {v : Option (List PathBuf)} (hv : v ∈ r.2.tells s id) :
    st.OnCourse (st.replies.eraseIdx i) id v := by
  have hnow : ∀ w, w = st.db.rootsOf id →
      Replica.after (WorkspacePush.act s id) st.pushes w = st.db.rootsOf id := by
    rintro w rfl
    exact h.settledPushes id _ List.suffix_rfl
  rcases hout : st.outdated id r.1 with _ | _
  · exact .inr (.inl (hnow v (h.eq_rootsOf (List.mem_of_getElem? hr) hv hout)))
  · obtain ⟨p, hp, hid⟩ := List.any_eq_true.1 hout
    obtain rfl := of_decide_eq_true hid
    rcases hc r hr p hp (speaksOf_of_tells hv) with hasked | ⟨p', hp', hid⟩ | ⟨q, hq, hsp, hnew⟩
    · exact .inl hasked
    · -- the push that is on its way is about the workspace
      refine .inr (.inl ?_)
      rw [Replica.after_eq_after hp' (act_const hid) v (st.db.rootsOf p.workspaceId)]
      exact hnow _ rfl
    · obtain ⟨w, hw⟩ := @tells_of_speaksOf s _ _ hsp
      refine .inr (.inr ⟨w, List.mem_filterMap.2 ⟨q, hq, hw⟩, hnow w ?_⟩)
      exact h.eq_rootsOf (List.mem_of_mem_eraseIdx hq) hw hnew

theorem Inv.resume {i : ℕ} {r : ℕ × WorkspaceReply} (h : st.Inv) (hr : st.replies[i]? = some r)
    (hc : st.InTime (.resume i)) :
    Inv { st with replies := st.replies.eraseIdx i, slot := st.slot.applyReply s r.2 } where
  suffix := h.suffix
  settled := h.settled
  told q hq := h.told q (List.mem_of_mem_eraseIdx hq)
  onCourse id := by
    rw [lookup_applyReply]
    rcases hv : r.2.tells s id with _ | v
    · refine (h.onCourse id).mono (fun w hw => ?_) fun hasked => hasked
      obtain ⟨q, hq, hw⟩ := List.mem_filterMap.1 hw
      refine List.mem_filterMap.2 ⟨q, Slots.mem_eraseIdx_of_ne hr hq ?_, hw⟩
      rintro rfl
      rw [hv] at hw
      cases hw
    · exact h.onCourse_tells hr hc hv
  loaded := by
    have hother (hr' : ∀ list, r.2 ≠ .workspaces list)
        (hslot : st.slot.applyReply s r.2 = st.slot) :
        st.slot.applyReply s r.2 ≠ .neverLoaded ∨ .listWorkspaces ∈ st.requests ∨
          ∃ q ∈ st.replies.eraseIdx i, ∃ list, q.2 = .workspaces list := by
      rw [hslot]
      refine h.loaded.imp_right (Or.imp_right ?_)
      rintro ⟨q, hq, list, hlist⟩
      refine ⟨q, Slots.mem_eraseIdx_of_ne hr hq ?_, list, hlist⟩
      rintro rfl
      exact hr' list hlist
    rcases r with ⟨n, list | w | gone | code⟩
    · refine .inl fun hslot => ?_
      cases hslot
    · left
      rcases hslot : st.slot <;> simp [WorkspaceRootsCache.applyReply,
        WorkspaceRootsCache.upsertWorkspaceRoots]
    · by_cases hslot : st.slot = .neverLoaded
      · exact hother (fun _ hlist => by cases hlist) (by rw [hslot]; rfl)
      · left
        rcases hmap : st.slot with _ | map
        · exact absurd hmap hslot
        · simp [WorkspaceRootsCache.applyReply, WorkspaceRootsCache.removeWorkspaceRoots]
    · exact hother (fun _ hlist => by cases hlist) rfl

theorem Inv.step {a : RootsAction} (h : st.Inv) (hc : st.InTime a) {st' : RootsState s}
    (hstep : st.step a = some st') : st'.Inv := by
  cases a with
  | send r =>
    obtain rfl := Option.some.inj hstep
    refine ⟨h.suffix, h.settled, h.told, fun k => ?_,
      h.loaded.imp id (Or.imp (List.mem_append_left _) id)⟩
    exact (h.onCourse k).mono (fun _ hw => hw) (List.mem_append_left _)
  | serve i =>
    obtain ⟨r, hr, rfl⟩ := Option.map_eq_some_iff.1 hstep
    exact h.serve hr
  | serveOther r =>
    obtain rfl := Option.some.inj hstep
    exact h.served r
  | applyPush =>
    rcases hp : st.pushes with _ | ⟨p, pushes⟩
    · simp [RootsState.step, hp] at hstep
    · obtain rfl : _ = st' := by simpa [RootsState.step, hp] using hstep
      exact h.applyPush hp
  | resume i =>
    obtain ⟨r, hr, rfl⟩ := Option.map_eq_some_iff.1 hstep
    exact h.resume hr hc

theorem inv_run (db : WorkspaceTable s) (as : List RootsAction)
    (h : Runs.Along step InTime (init db) as) (hr : Runs.run step (init db) as = some st) :
    st.Inv :=
  h.keeps (fun _ _ _ hi hc hs => hi.step hc hs) (inv_init db) hr

/-- The cache and the lists on their way have one entry for a workspace. -/
structure Keyed (st : RootsState s) : Prop where
  slot : ∀ map, st.slot = .loaded map → (map.map (·.1)).Nodup
  lists : ∀ r ∈ st.replies, ∀ list, r.2 = .workspaces list → (list.map WorkspaceRoots.id).Nodup

theorem nodup_upsert {slot : WorkspaceRootsCache} {w : WorkspaceRoots}
    (h : ∀ map, slot = .loaded map → (map.map (·.1)).Nodup) :
    ∀ map, slot.upsertWorkspaceRoots s w = .loaded map → (map.map (·.1)).Nodup := by
  rcases slot with _ | old
  · rintro _ ⟨⟩
    simp
  · rintro _ ⟨⟩
    rw [List.map_cons, List.nodup_cons]
    exact ⟨by simp, (h old rfl).sublist (List.filter_sublist.map _)⟩

theorem nodup_remove {slot : WorkspaceRootsCache} {gone : String}
    (h : ∀ map, slot = .loaded map → (map.map (·.1)).Nodup) :
    ∀ map, slot.removeWorkspaceRoots gone = .loaded map → (map.map (·.1)).Nodup := by
  rcases slot with _ | old
  · rintro _ ⟨⟩
  · rintro _ ⟨⟩
    exact (h old rfl).sublist (List.filter_sublist.map _)

theorem Keyed.step {a : RootsAction} (h : st.Keyed) {st' : RootsState s}
    (hstep : st.step a = some st') : st'.Keyed := by
  cases a with
  | send r =>
    obtain rfl := Option.some.inj hstep
    exact ⟨h.slot, h.lists⟩
  | serve i =>
    obtain ⟨r, -, rfl⟩ := Option.map_eq_some_iff.1 hstep
    refine ⟨h.slot, fun q hq list hlist => ?_⟩
    rcases List.mem_append.1 hq with hq | hq
    · exact h.lists q hq list hlist
    · obtain rfl := List.mem_singleton.1 hq
      exact st.db.nodup_of_serve hlist
  | serveOther r =>
    obtain rfl := Option.some.inj hstep
    exact ⟨h.slot, h.lists⟩
  | applyPush =>
    rcases hp : st.pushes with _ | ⟨p, pushes⟩
    · simp [RootsState.step, hp] at hstep
    · obtain rfl : _ = st' := by simpa [RootsState.step, hp] using hstep
      refine ⟨?_, h.lists⟩
      rcases p with w | w | gone
      · exact nodup_upsert h.slot
      · exact nodup_upsert h.slot
      · exact nodup_remove h.slot
  | resume i =>
    obtain ⟨r, hr, rfl⟩ := Option.map_eq_some_iff.1 hstep
    refine ⟨?_, fun q hq => h.lists q (List.mem_of_mem_eraseIdx hq)⟩
    rcases r with ⟨n, list | w | gone | code⟩
    · rintro _ ⟨⟩
      simpa [Function.comp_def] using h.lists _ (List.mem_of_getElem? hr) list rfl
    · exact nodup_upsert h.slot
    · exact nodup_remove h.slot
    · exact h.slot

theorem keyed_run (db : WorkspaceTable s) (as : List RootsAction)
    (h : Runs.Along step InTime (init db) as) (hr : Runs.run step (init db) as = some st) :
    st.Keyed :=
  h.keeps (fun _ _ _ hi _ hs => hi.step hs) ⟨nofun, nofun⟩ hr

/-- The guard admits what lies in a registered root. -/
theorem ensureRegisteredRootIn_eq_ok {slot : WorkspaceRootsCache} {root : PathBuf} :
    ensureRegisteredRootIn s slot root = .ok () ↔ ∃ p, s.canonicalize root = some p ∧
      ∃ registered ∈ slot.roots, registered <+: absolutePath p := by
  rcases slot with _ | map
  · simp [ensureRegisteredRootIn, WorkspaceRootsCache.roots]
  · unfold ensureRegisteredRootIn
    rcases s.canonicalize root with _ | p
    · simp
    · simp [WorkspaceRootsCache.roots, -List.mem_flatMap, -List.any_flatMap]

/-- A cache with the daemon's entries has the roots of its workspaces. -/
theorem mem_roots (h : st.Keyed) (heq : ∀ id, st.slot.lookup id = st.db.rootsOf id)
    {registered : PathBuf} : registered ∈ st.slot.roots ↔
      ∃ w ∈ st.db.table.rows, registered ∈ w.roots := by
  have hdb {id : String} {roots : List PathBuf} : st.slot.lookup id = some roots ↔
      ∃ w, st.db.table.lookup id = some w ∧ w.roots = roots := by
    rw [heq, WorkspaceTable.rootsOf, Option.map_eq_some_iff]
  rcases hslot : st.slot with _ | map
  · rw [hslot] at hdb
    constructor
    · intro hroot
      cases hroot
    · rintro ⟨w, hw, -⟩
      cases hdb.2 ⟨w, KeyedTable.mem_rows.1 hw, rfl⟩
  · let t : KeyedTable (fun entry : String × List PathBuf => entry.1) := ⟨map, h.slot map hslot⟩
    have hlookup {id : String} : st.slot.lookup id = (t.lookup id).map (·.2) := by
      rw [hslot]
      rfl
    simp only [WorkspaceRootsCache.roots, List.mem_flatMap]
    constructor
    · rintro ⟨entry, hentry, hroot⟩
      have ht : t.lookup entry.1 = some entry := KeyedTable.lookup_eq_some.2 ⟨hentry, rfl⟩
      obtain ⟨w, hw, hroots⟩ := hdb.1 (hlookup.trans (congrArg (Option.map (·.2)) ht))
      exact ⟨w, (KeyedTable.lookup_eq_some.1 hw).1, hroots ▸ hroot⟩
    · rintro ⟨w, hw, hroot⟩
      have hw' := hdb.2 ⟨w, KeyedTable.mem_rows.1 hw, rfl⟩
      obtain ⟨entry, hentry, hroots⟩ := Option.map_eq_some_iff.1 (hlookup.symm.trans hw')
      exact ⟨entry, (KeyedTable.lookup_eq_some.1 hentry).1, hroots ▸ hroot⟩

/-- In every run in which no reply is taken over after all that is newer about a workspace, the cache
at rest has the daemon's workspaces with their roots, and the guard admits nothing else. -/
theorem cache_eq_daemon (db : WorkspaceTable s) (as : List RootsAction)
    (h : Runs.Along step InTime (init db) as) (hr : Runs.run step (init db) as = some st)
    (hrest : st.AtRest) :
    st.slot ≠ .neverLoaded ∧ (∀ id, st.slot.lookup id = st.db.rootsOf id) ∧
      ∀ root, ensureRegisteredRootIn s st.slot root = .ok () ↔
        ∃ p, s.canonicalize root = some p ∧ ∃ w ∈ st.db.table.rows, ∃ registered ∈ w.roots,
          registered <+: absolutePath p := by
  obtain ⟨hreq, hpushes, hreplies⟩ := hrest
  have hinv := inv_run db as h hr
  have heq (id : String) : st.slot.lookup id = st.db.rootsOf id := by
    have hon := hinv.onCourse id
    rw [OnCourse, hpushes, hreplies] at hon
    exact hon.eq (by simp [hreq])
  refine ⟨?_, heq, fun root => ?_⟩
  · rcases hinv.loaded with h | h | ⟨r, h, -⟩
    · exact h
    · simp [hreq] at h
    · simp [hreplies] at h
  · rw [ensureRegisteredRootIn_eq_ok]
    refine exists_congr fun p => and_congr_right fun _ => ?_
    simp only [mem_roots (keyed_run db as h hr) heq]
    constructor
    · rintro ⟨registered, ⟨w, hw, hroot⟩, hpre⟩
      exact ⟨w, hw, registered, hroot, hpre⟩
    · rintro ⟨w, hw, registered, hroot, hpre⟩
      exact ⟨registered, ⟨w, hw, hroot⟩, hpre⟩

section Late

/-- A directory for each root. -/
def rootsTree : FileTree :=
  ((FileTree.empty [] 8).insert ["a"] .dir ⟨by decide, rfl, rfl⟩).insert ["b"] .dir
    ⟨by decide, rfl, rfl⟩

def noWorkspaces : WorkspaceTable rootsTree := ⟨.empty, nofun⟩

def rootA : PathBuf := absolutePath ["a"]

def rootB : PathBuf := absolutePath ["b"]

/-- The core loads its list, makes a workspace and gives it a second root. -/
def twoRoots : List RootsAction :=
  [.serve 0, .resume 0, .send (.createWorkspace rootA "w"), .serve 0, .applyPush, .resume 0,
    .send (.addWorkspaceRoot "w" rootB), .serve 0]

/-- The reply that adds the root is taken over before its removal is pushed. -/
theorem cache_eq_daemon_removed : ∃ st,
    Runs.run step (init noWorkspaces)
        (twoRoots ++ [.serveOther (.removeWorkspaceRoot "w" rootB), .resume 0, .applyPush,
          .applyPush]) = some st ∧
      st.db.rootsOf "w" = some [rootA] ∧
      (st.slot ≠ .neverLoaded ∧ (∀ id, st.slot.lookup id = st.db.rootsOf id) ∧
        ∀ root, ensureRegisteredRootIn rootsTree st.slot root = .ok () ↔
          ∃ p, rootsTree.canonicalize root = some p ∧ ∃ w ∈ st.db.table.rows,
            ∃ registered ∈ w.roots, registered <+: absolutePath p) := by
  obtain ⟨st, hr, hrest, hroots⟩ : ∃ st ∈ Runs.run step (init noWorkspaces)
      (twoRoots ++ [.serveOther (.removeWorkspaceRoot "w" rootB), .resume 0, .applyPush,
        .applyPush]),
      (st.requests = [] ∧ st.pushes = [] ∧ st.replies = []) ∧
        st.db.rootsOf "w" = some [rootA] := by
    decide +kernel
  exact ⟨st, hr, hroots, cache_eq_daemon noWorkspaces _ (by decide +kernel) hr hrest⟩

/-- The reply that adds the root is taken over after its removal was acknowledged. -/
theorem removed_root_admitted :
    ¬ ∀ (s : FileTree) (db : WorkspaceTable s) (as : List RootsAction) (st : RootsState s),
      Runs.run step (init db) as = some st → st.AtRest →
        ∀ id, st.slot.lookup id = st.db.rootsOf id := by
  intro h
  obtain ⟨st, hr, hrest, hslot, hdb⟩ : ∃ st ∈ Runs.run step (init noWorkspaces)
      (twoRoots ++ [.applyPush, .send (.removeWorkspaceRoot "w" rootB), .serve 0, .applyPush,
        .resume 1, .resume 0]),
      (st.requests = [] ∧ st.pushes = [] ∧ st.replies = []) ∧
        st.slot.lookup "w" = some [rootA, rootB] ∧ st.db.rootsOf "w" = some [rootA] := by
    decide +kernel
  have heq := h rootsTree noWorkspaces _ st hr hrest "w"
  rw [hslot, hdb] at heq
  exact absurd heq (by decide +kernel)

end Late

end RootsState

end BuilderPro
