import BuilderPro.App.ListInvariant
import BuilderPro.Lib.Slots

/-!
# The store's lists become the daemon's

A hydrate that is begun after the daemon's last change and the last reconnect brings every row that
the daemon lists, and what the daemon lists no longer leaves the store by an event, if none is
missed.  So a store at rest that such a hydrate was put in is what the daemon lists
(`lists_converge`), as long as rows are put in and taken out in turn.
-/

namespace BuilderPro

namespace ListsState

variable {st st' : ListsState} {home : String → String} {first : AppLists} {log : List ListChange}
  {id : String}

/-- What is on its way and the lists stay as they are. -/
theorem Inv.congr (h : st.Inv home first) (hd : st'.daemon = st.daemon) (hlog : st'.log = st.log)
    (hs : st'.store = st.store) (hp : st'.pending = st.pending)
    (hc : st'.caughtUp → st.caughtUp) (hh : ∀ x ∈ st'.hydrates, HydrateRead home first st.log x)
    (hkept : ∀ r ∈ st.replies, r ∈ st'.replies)
    (hr : ∀ r ∈ st'.replies, WorkspaceReplied first st.log r) : st'.Inv home first where
  recorded := h.recorded.mono hd hlog (hs ▸ h.recorded.store) (by rw [hp]; exact fun _ => id) hh hr
  told := h.told.mono hd hs hp hkept
  leads := by
    refine ⟨fun hcaught id m hm => ?_, fun hcaught id w hw => ?_⟩
    · rw [comingSession, hp, hs]
      exact h.leads.sessions (hc hcaught) id m (hd ▸ hm)
    · rw [comingWorkspace, hp, hs]
      exact h.leads.workspaces (hc hcaught) id w (hd ▸ hw)

/-- A rejected command has nothing to put in the store. -/
theorem workspaceReplied_rejected (c : OwnCall) (k : ℕ) :
    WorkspaceReplied first log (k, c.rejected) := by
  intro w hw
  rcases c with _ | _ | _ | _ | _ <;> cases hw

theorem Inv.reply_rejected (h : st.Inv home first) (c : OwnCall) :
    (st.reply c.rejected).Inv home first := by
  refine h.congr rfl rfl rfl rfl id h.recorded.hydrates
    (fun _ hr => List.mem_append_left _ hr) fun r hr => ?_
  rcases List.mem_append.1 hr with hr | hr
  · exact h.recorded.replies r hr
  · rw [List.mem_singleton.1 hr]
    exact workspaceReplied_rejected c _

theorem Inv.beginHydrate (h : st.Inv home first) : st.beginHydrate.Inv home first := by
  rw [ListsState.beginHydrate]
  split_ifs
  · refine h.congr rfl rfl rfl rfl id (fun x hx => ?_) (fun _ => id) h.recorded.replies
    rcases List.mem_append.1 hx with hx | hx
    · exact h.recorded.hydrates x hx
    · rw [List.mem_singleton.1 hx]
      exact ⟨nofun, nofun⟩
  · exact h

theorem filterMap_cons_toList {α β : Type*} (f : α → Option β) (a : α) (as : List α) :
    (a :: as).filterMap f = (f a).toList ++ as.filterMap f := by
  rw [List.filterMap_cons]
  rcases f a with _ | b <;> rfl

theorem Inv.onPush {p : ListPush} {events : List AppEvent} (h : st.Inv home first)
    (he : st.events = .push p :: events) :
    (onEvent { st with events } (.push p)).Inv home first := by
  have hpending : st.pending = p :: pending { st with events } := by
    rw [pending, he]
    rfl
  have hs := AppLists.sessions_onPush h.recorded.store p
  have hw := st.store.workspaces_onPush p
  have hcoming (id : String) : st.comingSession home id =
      (p.sessionChange? home id).toList ++ comingSession { st with events } home id := by
    rw [comingSession, hpending, filterMap_cons_toList]
    rfl
  have hcomingW (id : String) : st.comingWorkspace id =
      (p.workspaceChange? id).toList ++ comingWorkspace { st with events } id := by
    rw [comingWorkspace, hpending, filterMap_cons_toList]
    rfl
  refine ⟨h.recorded.mono rfl rfl (h.recorded.store.onPush fun m hm => ?_) (fun q hq => ?_)
    h.recorded.hydrates h.recorded.replies, ⟨fun id => ?_, fun id => ?_⟩,
    ⟨fun hc id m hm => ?_, fun hc id w hw' => ?_⟩⟩
  · refine h.recorded.coming m ?_
    rw [hpending, hm]
    exact List.mem_cons_self
  · rw [hpending]
    exact List.mem_cons_of_mem _ hq
  · have htold := h.told.sessions id
    rw [hcoming] at htold
    show Replica.Told _ _ (comingSession { st with events } home id) _ _
      ((st.store.onPush p).sessions.lookup id)
    rw [hs id]
    rcases hp : p.sessionChange? home id with _ | c
    · rw [hp] at htold
      exact htold
    · rw [hp] at htold
      refine Replica.Told.deliver SessionChange.onEntry (fun hb => ?_) (fun hg => ?_) htold
      · rcases c with m | u | x | _
        · exact absurd rfl hb
        · rfl
        · rfl
        · rfl
      · rw [hg]
        rfl
  · have htold := h.told.workspaces id
    rw [hcomingW] at htold
    show Replica.Told _ _ (comingWorkspace { st with events } id) _ _
      ((st.store.onPush p).workspaces.lookup id)
    rw [hw id]
    rcases hp : p.workspaceChange? id with _ | c
    · rw [hp] at htold
      exact htold
    · rw [hp] at htold
      refine Replica.Told.deliver setWorkspace (fun hb => ?_) (fun hg => hg) htold
      rcases c with _ | w
      · rfl
      · exact absurd rfl hb
  · have hlead := h.leads.sessions hc id m hm
    rw [hcoming, Replica.after_append, ← hs id] at hlead
    exact hlead
  · have hlead := h.leads.workspaces hc id w hw'
    rw [hcomingW, Replica.after_append, ← hw id] at hlead
    exact hlead

/-- The next event is handled. -/
theorem Inv.onEvent {e : AppEvent} {events : List AppEvent} (h : st.Inv home first)
    (he : st.events = e :: events) : (onEvent { st with events } e).Inv home first := by
  have hpending : st.pending = e.push?.toList ++ pending { st with events } := by
    rw [pending, he]
    cases e <;> rfl
  rcases e with p | _ | _
  · exact h.onPush he
  · exact h.congr rfl rfl rfl hpending.symm id h.recorded.hydrates (fun _ => id)
      h.recorded.replies
  · exact Inv.beginHydrate (h.congr rfl rfl rfl hpending.symm id h.recorded.hydrates
      (fun _ => id) h.recorded.replies)

theorem pending_emit {p : ListPush} {wire : List ListPush} (hw : st.wire = p :: wire) :
    pending { st with wire, events := st.events ++ [.push p] } = st.pending := by
  simp [pending, hw, AppEvent.push?]

theorem Inv.answer {i : ℕ} {f : Hydrate → Option Hydrate} (h : st.Inv home first)
    (hf : ∀ x ∈ st.hydrates, ∀ y ∈ f x, HydrateRead home first st.log y)
    (hs : st.answer i f = some st') : st'.Inv home first := by
  obtain ⟨-, hs⟩ := Option.ite_none_right_eq_some.1 hs
  obtain ⟨y, hy, rfl⟩ := Option.map_eq_some_iff.1 hs
  obtain ⟨x, hx, hy⟩ := Option.bind_eq_some_iff.1 hy
  refine h.congr rfl rfl rfl rfl id (fun z hz => ?_) (fun _ => id) h.recorded.replies
  rcases List.mem_or_eq_of_mem_set hz with hz | rfl
  · exact h.recorded.hydrates z hz
  · exact hf x (List.mem_of_getElem? hx) z hy

/-- The daemon's lists are read as they are. -/
theorem Recorded.read (h : st.Recorded home first) (fresh : Bool) :
    SessionsRead home first st.log fresh (st.log.length, st.daemon.sessions) ∧
      WorkspacesRead first st.log fresh (st.log.length, st.daemon.workspaces) :=
  ⟨⟨le_rfl, fun _ => rfl, h.daemon, fun id => (h.sessions id).symm⟩,
    ⟨le_rfl, fun _ => rfl, fun id => (h.workspaces id).symm⟩⟩

theorem Inv.hydrate {i : ℕ} {x : Hydrate} {ws : ℕ × KeyedTable Workspace.id}
    {ss : ℕ × KeyedTable SessionMeta.id} (h : st.Inv home first)
    (hx : st.hydrates[i]? = some x) (hws : x.workspaces = some ws) (hss : x.sessions = some ss)
    (ht : st.InTurn home (.hydrate i)) :
    Inv { st with
      hydrates := st.hydrates.eraseIdx i, store := st.store.hydrate ws.2 ss.2
      caughtUp := st.caughtUp || x.fresh } home first := by
  obtain ⟨hsessions, hworkspaces⟩ := ht x hx
  have hread := h.recorded.hydrates x (List.mem_of_getElem? hx)
  have hsread := hread.sessions ss hss
  have hwread := hread.workspaces ws hws
  refine ⟨h.recorded.mono rfl rfl (h.recorded.store.hydrate hsread.homed) (fun _ => id)
    (fun y hy => h.recorded.hydrates y (List.mem_of_mem_eraseIdx hy)) h.recorded.replies,
    ⟨fun id => ?_, fun id => ?_⟩, ⟨fun hc id m hm => ?_, fun hc id w hw => ?_⟩⟩
  · refine (h.told.sessions id).put fun hsome hgone => ?_
    rw [AppLists.sessions_hydrate] at hsome
    rcases hrow : ss.2.lookup id with _ | m
    · rw [hrow] at hsome
      exact .inl hsome
    · obtain ⟨hm, rfl⟩ := KeyedTable.lookup_eq_some.1 hrow
      exact .inr ((hsessions ss hss m hm).1 hgone).told
  · refine (h.told.workspaces id).put fun hsome hgone => ?_
    rw [AppLists.workspaces_hydrate] at hsome
    rcases hrow : ws.2.lookup id with _ | w
    · rw [hrow] at hsome
      exact .inl hsome
    · obtain ⟨hw, rfl⟩ := KeyedTable.lookup_eq_some.1 hrow
      exact .inr ((hworkspaces ws hws w hw).1 hgone).told
  · rw [Bool.or_eq_true] at hc
    show Replica.after _ (st.comingSession home id) ((st.store.hydrate _ _).sessions.lookup id) = _
    rw [AppLists.sessions_hydrate]
    rcases hrow : ss.2.lookup id with _ | w
    · rcases hc with hc | hf
      · exact h.leads.sessions hc id m hm
      · -- a fresh list has every row of the daemon
        rw [hsread.lookup id, hsread.now hf, h.recorded.sessions] at hrow
        exact absurd (hrow.symm.trans hm) nofun
    · obtain ⟨hw, rfl⟩ := KeyedTable.lookup_eq_some.1 hrow
      exact after_onEntry_of_inTurn h.recorded (hrow.symm.trans (hsread.lookup w.id)) hm
        (hsessions ss hss w hw) hc.symm
  · rw [Bool.or_eq_true] at hc
    show Replica.after _ (st.comingWorkspace id) ((st.store.hydrate _ _).workspaces.lookup id) = _
    rw [AppLists.workspaces_hydrate]
    rcases hrow : ws.2.lookup id with _ | v
    · rcases hc with hc | hf
      · exact h.leads.workspaces hc id w hw
      · rw [hwread.lookup id, hwread.now hf, h.recorded.workspaces] at hrow
        exact absurd (hrow.symm.trans hw) nofun
    · obtain ⟨hv, rfl⟩ := KeyedTable.lookup_eq_some.1 hrow
      exact after_setWorkspace_of_inTurn h.recorded h.leads
        (hrow.symm.trans (hwread.lookup v.id)) hw
        ((hworkspaces ws hws v hv).2 (by rw [hw]; rfl)) hwread.now hc

theorem sessions_onReply {l : AppLists} (h : l.Homed home) (r : OwnReply) (id : String) :
    (l.onReply r).sessions.lookup id =
      if r.takesOutSession home id then none else l.sessions.lookup id := by
  rcases r with w | gone | gone | _
  · rfl
  · show (l.sessions.erase gone).lookup id = _
    rw [KeyedTable.lookup_erase, OwnReply.takesOutSession]
    by_cases hid : gone = id
    · rw [if_pos hid.symm, if_pos (decide_eq_true hid)]
    · rw [if_neg (Ne.symm hid), if_neg (by simpa using hid)]
  · refine (AppLists.sessions_dropWorkspace h gone).trans ?_
    rw [OwnReply.takesOutSession]
    simp only [decide_eq_true_iff]
  · rfl

theorem workspaces_onReply (l : AppLists) {r : OwnReply} (hr : ∀ w, r ≠ .upsertWorkspace w)
    (id : String) :
    (l.onReply r).workspaces.lookup id =
      if r.takesOutWorkspace id then none else l.workspaces.lookup id := by
  rcases r with w | gone | gone | _
  · exact absurd rfl (hr w)
  · rfl
  · show (l.workspaces.erase gone).lookup id = _
    rw [KeyedTable.lookup_erase, OwnReply.takesOutWorkspace]
    by_cases hid : gone = id
    · rw [if_pos hid.symm, if_pos (decide_eq_true hid)]
    · rw [if_neg (Ne.symm hid), if_neg (by simpa using hid)]
  · rfl

theorem Inv.resume {i : ℕ} {r : ℕ × OwnReply} (h : st.Inv home first)
    (hr : st.replies[i]? = some r) (ht : st.InTurn home (.resume i)) :
    Inv { st with replies := st.replies.eraseIdx i, store := st.store.onReply r.2 } home first := by
  obtain ⟨hput, hlisted, hgone, hgoneW⟩ := ht r hr
  have hs := sessions_onReply h.recorded.store r.2
  refine ⟨h.recorded.mono rfl rfl (h.recorded.store.onReply r.2) (fun _ => id)
    h.recorded.hydrates fun x hx => h.recorded.replies x (List.mem_of_mem_eraseIdx hx),
    ⟨fun id hnow hknown => ?_, fun id hnow hknown => ?_⟩,
    ⟨fun hc id m hm => ?_, fun hc id w hw => ?_⟩⟩
  · by_cases hout : r.2.takesOutSession home id
    · rcases hknown with hsome | hbrings
      · have hnone := hs id
        rw [if_pos hout] at hnone
        exact absurd hsome (by rw [hnone]; exact Bool.false_ne_true)
      · exact (hgone id (mem_sessionIds hbrings) hout hnow).told
    · have hsame := hs id
      rw [if_neg hout] at hsame
      refine (h.told.sessions id hnow (hknown.imp_left fun hsome => ?_)).imp_right ?_
      · rwa [hsame] at hsome
      · rintro ⟨x, hx, hxout⟩
        refine ⟨x, Slots.mem_eraseIdx_of_ne hr hx ?_, hxout⟩
        rintro rfl
        exact hout hxout
  · have hkept (hsame : ((st.store.onReply r.2).workspaces.lookup id).isSome →
        (st.store.workspaces.lookup id).isSome) (hout : ¬r.2.takesOutWorkspace id) :
        (∃ c ∈ (st.comingWorkspace id).getLast?, c = none) ∨
          ∃ x ∈ st.replies.eraseIdx i, x.2.takesOutWorkspace id := by
      refine (h.told.workspaces id hnow (hknown.imp_left hsame)).imp_right ?_
      rintro ⟨x, hx, hxout⟩
      refine ⟨x, Slots.mem_eraseIdx_of_ne hr hx ?_, hxout⟩
      rintro rfl
      exact hout hxout
    by_cases hups : ∃ w, r.2 = .upsertWorkspace w
    · obtain ⟨w, hw⟩ := hups
      by_cases hid : id = w.id
      · rw [hid] at hnow ⊢
        exact ((hput w hw).1 hnow).told
      · rw [hw] at hkept
        refine hkept (fun hsome => ?_) Bool.false_ne_true
        have hlookup : (st.store.workspaces.upsert w).lookup id = st.store.workspaces.lookup id := by
          rw [KeyedTable.lookup_upsert, if_neg hid]
        rwa [← hlookup]
    · have hw := workspaces_onReply st.store (fun w hw => hups ⟨w, hw⟩) id
      by_cases hout : r.2.takesOutWorkspace id
      · rw [if_pos hout] at hw
        rcases hknown with hsome | hbrings
        · exact absurd hsome (by rw [hw]; exact Bool.false_ne_true)
        · exact (hgoneW id (mem_workspaceIds hbrings) hout hnow).told
      · rw [if_neg hout] at hw
        exact hkept (fun hsome => by rwa [hw] at hsome) hout
  · have hlead := h.leads.sessions hc id m hm
    by_cases hout : r.2.takesOutSession home id
    · obtain ⟨hmem, rfl⟩ := KeyedTable.lookup_eq_some.1 hm
      obtain ⟨c, hcoming, hcreated⟩ := (hlisted hc).1 m hmem hout
      have hconst (v w : Option SessionMeta) : c.onEntry v = c.onEntry w := by
        rcases c with _ | _ | _ | _
        · rfl
        · cases hcreated
        · cases hcreated
        · rfl
      exact (Replica.after_eq_after hcoming hconst _ _).trans hlead
    · have hsame := hs id
      rw [if_neg hout] at hsame
      exact (congrArg _ hsame).trans hlead
  · have hlead := h.leads.workspaces hc id w hw
    by_cases hups : ∃ v, r.2 = .upsertWorkspace v
    · obtain ⟨v, hv⟩ := hups
      have hlookup : (st.store.onReply r.2).workspaces.lookup id =
          if id = v.id then some v else st.store.workspaces.lookup id := by
        rw [hv]
        exact KeyedTable.lookup_upsert
      refine (congrArg _ hlookup).trans ?_
      split_ifs with hid
      · subst hid
        obtain ⟨-, hat⟩ := h.recorded.replies r (List.mem_of_getElem? hr) v hv
        have hturn := (hput v hv).2 (Option.isSome_iff_exists.2 ⟨w, hw⟩)
        have hput : Replica.after setWorkspace (st.comingWorkspace v.id) (some v) = some w :=
          after_setWorkspace_of_inTurn h.recorded h.leads hat hw hturn False.elim (.inl hc)
        exact hput
      · exact hlead
    · have hsame := workspaces_onReply st.store (fun w hw => hups ⟨w, hw⟩) id
      by_cases hout : r.2.takesOutWorkspace id
      · obtain ⟨hmem, rfl⟩ := KeyedTable.lookup_eq_some.1 hw
        exact (after_setWorkspace_congr ((hlisted hc).2 w hmem hout) _ _).trans hlead
      · rw [if_neg hout] at hsame
        exact (congrArg _ hsame).trans hlead

theorem fresh_outdate (x : Hydrate) (hx : x ∈ st.outdate.hydrates) :
    ∃ y ∈ st.hydrates, x = { y with fresh := false } := by
  obtain ⟨y, hy, rfl⟩ := List.mem_map.1 hx
  exact ⟨y, hy, rfl⟩

theorem HydrateRead.stale {x : Hydrate} (h : HydrateRead home first log x) :
    HydrateRead home first log { x with fresh := false } :=
  ⟨fun t ht => ⟨(h.sessions t ht).le, nofun, (h.sessions t ht).homed, (h.sessions t ht).lookup⟩,
    fun t ht => ⟨(h.workspaces t ht).le, nofun, (h.workspaces t ht).lookup⟩⟩

/-- What is lost with the connection is no removal of what the store goes on showing. -/
theorem Inv.disconnect (h : st.Inv home first) (ht : st.InTurn home .disconnect) :
    st.disconnect.Inv home first := by
  have hpending : st.disconnect.pending = st.events.filterMap AppEvent.push? := by
    simp [pending, ListsState.disconnect, AppEvent.push?]
  have hsplit : st.pending = st.disconnect.pending ++ st.wire := by
    rw [hpending]
    rfl
  have hcoming (id : String) : st.comingSession home id = st.disconnect.comingSession home id ++
      st.wire.filterMap (ListPush.sessionChange? home id) := by
    rw [comingSession, hsplit, List.filterMap_append]
    rfl
  have hcomingW (id : String) : st.comingWorkspace id = st.disconnect.comingWorkspace id ++
      st.wire.filterMap (ListPush.workspaceChange? id) := by
    rw [comingWorkspace, hsplit, List.filterMap_append]
    rfl
  obtain ⟨hlost, hlostW⟩ := ht
  refine ⟨h.recorded.mono rfl rfl h.recorded.store (fun p hp => ?_) (fun x hx => ?_)
    (fun r hr => ?_), ⟨fun id hnow hknown => ?_, fun id hnow hknown => ?_⟩, leads_of_outdated rfl⟩
  · rw [hsplit]
    exact List.mem_append_left _ hp
  · obtain ⟨y, hy, rfl⟩ := fresh_outdate x (List.mem_of_mem_filter hx)
    exact (h.recorded.hydrates y hy).stale
  · rcases List.mem_append.1 hr with hr | hr
    · exact h.recorded.replies r hr
    · obtain ⟨c, -, rfl⟩ := List.mem_map.1 hr
      exact workspaceReplied_rejected c _
  · have hold : (st.store.sessions.lookup id).isSome ∨
        ∃ c ∈ st.comingSession home id, c.isCreated := by
      rw [hcoming]
      refine hknown.imp_right ?_
      rintro ⟨c, hc, hb⟩
      exact ⟨c, List.mem_append_left _ hc, hb⟩
    rcases h.told.sessions id hnow hold with ⟨c, hlast, rfl⟩ | ⟨r, hr, hout⟩
    · rw [hcoming, List.getLast?_append] at hlast
      rcases hwire : (st.wire.filterMap (ListPush.sessionChange? home id)).getLast? with _ | c
      · rw [hwire] at hlast
        exact .inl ⟨_, hlast, rfl⟩
      · rw [hwire] at hlast
        obtain rfl : c = .removed := Option.some.inj hlast
        exact (hlost id (mem_knownSessions hknown) (List.mem_of_getLast? hwire)).told
    · exact .inr ⟨r, List.mem_append_left _ hr, hout⟩
  · have hold : (st.store.workspaces.lookup id).isSome ∨
        ∃ c ∈ st.comingWorkspace id, c.isSome := by
      rw [hcomingW]
      refine hknown.imp_right ?_
      rintro ⟨c, hc, hb⟩
      exact ⟨c, List.mem_append_left _ hc, hb⟩
    rcases h.told.workspaces id hnow hold with ⟨c, hlast, rfl⟩ | ⟨r, hr, hout⟩
    · rw [hcomingW, List.getLast?_append] at hlast
      rcases hwire : (st.wire.filterMap (ListPush.workspaceChange? id)).getLast? with _ | c
      · rw [hwire] at hlast
        exact .inl ⟨_, hlast, rfl⟩
      · rw [hwire] at hlast
        obtain rfl : c = none := Option.some.inj hlast
        exact (hlostW id (mem_knownWorkspaces hknown) (List.mem_of_getLast? hwire)).told
    · exact .inr ⟨r, List.mem_append_left _ hr, hout⟩

theorem Inv.serve (h : st.Inv home first) {v : DaemonVerb} {r : AppLists × List ListPush}
    (hr : st.daemon.serve v = some r) (ht : st.InTurn home (.serve v)) :
    (st.change r).Inv home first where
  recorded := h.recorded.serve ht.1 hr
  told := h.told.change rfl rfl (pending_change r) (fun _ => id)
    (fun hne _ => serve_tells h.recorded.daemon hr hne)
    (fun hne _ => after_serve_workspaces hr hne) fun hsent => ht.2 r hr hsent
  leads := leads_of_outdated rfl

theorem Inv.restart (h : st.Inv home first) {rows : AppLists}
    (ht : st.InTurn home (.restart rows)) : (st.change (rows, [])).Inv home first where
  recorded := h.recorded.restart ht.1
  told := h.told.change rfl rfl (pending_change (rows, [])) (fun _ => id)
    (fun hne => absurd rfl hne) (fun hne => absurd rfl hne) fun _ => ht.2
  leads := leads_of_outdated rfl

/-- What the daemon does for a command is told of, and what the command makes it drop the
continuation takes out. -/
theorem Inv.serveCall (h : st.Inv home first) {c : OwnCall} {r : AppLists × List ListPush}
    (hr : st.daemon.serve c.verb = some r) (hv : c.verb.Homed home) :
    ((st.change r).reply (c.done r.1)).Inv home first := by
  have hrec := h.recorded.serve hv hr
  refine ⟨hrec.mono rfl rfl hrec.store (fun _ => id) hrec.hydrates fun x hx => ?_,
    h.told.change rfl rfl (pending_change r) (fun x hx => List.mem_append_left _ hx)
      (fun hne _ => serve_tells h.recorded.daemon hr hne)
      (fun hne _ => after_serve_workspaces hr hne)
      fun _ => ⟨fun id _ hsome hgone => ?_, fun id _ hsome hgone => ?_⟩, leads_of_outdated rfl⟩
  · rcases List.mem_append.1 hx with hx | hx
    · exact hrec.replies x hx
    · rw [List.mem_singleton.1 hx]
      intro w hw
      refine ⟨le_rfl, ?_⟩
      rw [hrec.workspaces]
      exact (workspace_done hr hw).symm
  · exact .inr ⟨_, List.mem_append_right _ (List.mem_singleton.2 rfl),
      takesOutSession_done h.recorded.daemon hr hsome hgone⟩
  · exact .inr ⟨_, List.mem_append_right _ (List.mem_singleton.2 rfl),
      takesOutWorkspace_done hr hsome hgone⟩

theorem inv_step (h : st.Inv home first) {a : ListsAction} (ht : st.InTurn home a)
    (hs : st.step a = some st') : st'.Inv home first := by
  cases a with
  | serve v =>
    obtain ⟨r, hr, rfl⟩ := Option.map_eq_some_iff.1 hs
    exact h.serve hr ht
  | restart rows =>
    obtain ⟨-, ⟨⟩⟩ := Option.ite_none_left_eq_some.1 hs
    exact h.restart ht
  | disconnect =>
    obtain ⟨-, ⟨⟩⟩ := Option.ite_none_right_eq_some.1 hs
    exact h.disconnect ht
  | reconnect =>
    obtain ⟨-, ⟨⟩⟩ := Option.ite_none_left_eq_some.1 hs
    refine h.congr rfl rfl rfl ?_ nofun (fun x hx => ?_) (fun _ => id) h.recorded.replies
    · simp [pending, outdate, AppEvent.push?]
    · obtain ⟨y, hy, rfl⟩ := fresh_outdate x hx
      exact (h.recorded.hydrates y hy).stale
  | emit =>
    rw [step] at hs
    split at hs
    · cases hs
      exact h.congr rfl rfl rfl (pending_emit ‹_›) id h.recorded.hydrates (fun _ => id)
        h.recorded.replies
    · cases hs
  | handle =>
    rw [step] at hs
    split at hs
    · cases hs
      exact h.onEvent ‹_›
    · cases hs
  | beginHydrate =>
    cases hs
    exact h.beginHydrate
  | answerWorkspaces i =>
    refine h.answer (fun x hx y hy => ?_) hs
    obtain ⟨-, ⟨⟩⟩ := Option.ite_none_right_eq_some.1 hy
    refine ⟨(h.recorded.hydrates x hx).sessions, fun t ht => ?_⟩
    obtain rfl := Option.some.inj ht
    exact (h.recorded.read x.fresh).2
  | answerSessions i =>
    refine h.answer (fun x hx y hy => ?_) hs
    obtain ⟨-, ⟨⟩⟩ := Option.ite_none_right_eq_some.1 hy
    refine ⟨fun t ht => ?_, (h.recorded.hydrates x hx).workspaces⟩
    obtain rfl := Option.some.inj ht
    exact (h.recorded.read x.fresh).1
  | rejectHydrate i =>
    obtain ⟨_, -, rfl⟩ := Option.map_eq_some_iff.1 hs
    exact h.congr rfl rfl rfl rfl id
      (fun x hx => h.recorded.hydrates x (List.mem_of_mem_eraseIdx hx)) (fun _ => id)
      h.recorded.replies
  | hydrate i =>
    obtain ⟨x, hx, hs⟩ := Option.bind_eq_some_iff.1 hs
    split at hs
    · cases hs
      exact h.hydrate hx ‹_› ‹_› ht
    · cases hs
  | call c =>
    rw [step] at hs
    split_ifs at hs
    · cases hs
      exact h.congr rfl rfl rfl rfl id h.recorded.hydrates (fun _ => id) h.recorded.replies
    · cases hs
      exact h.reply_rejected c
  | serveCall i =>
    obtain ⟨c, hc, rfl⟩ := Option.map_eq_some_iff.1 hs
    have hcalled : Inv { st with calls := st.calls.eraseIdx i } home first :=
      h.congr rfl rfl rfl rfl id h.recorded.hydrates (fun _ => id) h.recorded.replies
    split
    · exact hcalled.serveCall ‹_› (ht c hc)
    · exact hcalled.reply_rejected c
  | rejectCall i =>
    obtain ⟨c, -, rfl⟩ := Option.map_eq_some_iff.1 hs
    have hcalled : Inv { st with calls := st.calls.eraseIdx i } home first :=
      h.congr rfl rfl rfl rfl id h.recorded.hydrates (fun _ => id) h.recorded.replies
    exact hcalled.reply_rejected c
  | resume i =>
    obtain ⟨r, hr, rfl⟩ := Option.map_eq_some_iff.1 hs
    exact h.resume hr ht

/-- In every run whose steps come in turn, the store at rest has the daemon's sessions and
workspaces, row for row, once a hydrate begun after the last change and the last reconnect is in. -/
theorem lists_converge (home : String → String) (daemon : AppLists) (hhomed : daemon.Homed home)
    (as : List ListsAction) (h : Runs.Along step (fun s a => s.InTurn home a) (init daemon) as)
    (hr : Runs.run step (init daemon) as = some st) (hrest : st.AtRest) (hcaught : st.caughtUp) :
    (∀ id, st.store.sessions.lookup id = st.daemon.sessions.lookup id) ∧
      ∀ id, st.store.workspaces.lookup id = st.daemon.workspaces.lookup id := by
  have hinv : st.Inv home daemon :=
    h.keeps (I := fun s => s.Inv home daemon) (fun _ _ _ hI ht hs => inv_step hI ht hs)
      (inv_init hhomed) hr
  obtain ⟨hwire, hevents, -, -, hreplies⟩ := hrest
  have hpending : st.pending = [] := by
    rw [pending, hwire, hevents]
    rfl
  refine ⟨fun id => ?_, fun id => ?_⟩
  · have hcoming : st.comingSession home id = [] := by
      rw [comingSession, hpending]
      rfl
    rcases hd : st.daemon.sessions.lookup id with _ | m
    · have htold := hinv.told.sessions id
      rw [hcoming, hd] at htold
      refine htold.eq_none ?_
      rintro ⟨r, hr, -⟩
      rw [hreplies] at hr
      cases hr
    · have hlead := hinv.leads.sessions hcaught id m hd
      rwa [hcoming] at hlead
  · have hcoming : st.comingWorkspace id = [] := by
      rw [comingWorkspace, hpending]
      rfl
    rcases hd : st.daemon.workspaces.lookup id with _ | w
    · have htold := hinv.told.workspaces id
      rw [hcoming, hd] at htold
      refine htold.eq_none ?_
      rintro ⟨r, hr, -⟩
      rw [hreplies] at hr
      cases hr
    · have hlead := hinv.leads.workspaces hcaught id w hd
      rwa [hcoming] at hlead

section Runs

def oneWorkspace : Workspace := ⟨"w", "p", "/p", ["/p"]⟩

def liveSession : SessionMeta :=
  ⟨"s", "w", "zsh", "/bin/zsh", "/p", 80, 24, .atPrompt, false, true, 0⟩

def oneLive : AppLists := (AppLists.upsertWorkspace ⟨.empty, .empty⟩ oneWorkspace).upsertSession
  liveSession

/-- The renderer starts and hydrates. -/
def boots : List ListsAction := [.beginHydrate, .answerWorkspaces 0, .answerSessions 0, .hydrate 0]

def otherSession : SessionMeta :=
  ⟨"t", "w", "zsh", "/bin/zsh", "/q", 80, 24, .atPrompt, false, true, 1⟩

/-- A command runs and the session's workspace gets a root while the connection is down; after it, a
session that another client has created is closed, twice, while a list is read, and the command ends
before the next one. -/
def outage : List ListsAction := boots ++ [.disconnect,
  .serve (.setStatus "s" ⟨.running, false, "/p"⟩), .serve (.setRoots "w" "/p" ["/p", "/q"]),
  .reconnect, .handle, .handle, .answerSessions 0, .serve (.createSession otherSession),
  .answerWorkspaces 0, .emit, .handle, .call (.killSession "t" ⟨none, some "SIGHUP"⟩),
  .serveCall 0, .call (.killSession "t" ⟨none, some "SIGHUP"⟩), .hydrate 0, .resume 0,
  .serveCall 0, .emit, .handle, .resume 0, .serve (.setStatus "s" ⟨.atPrompt, false, "/p"⟩),
  .beginHydrate, .answerSessions 0, .emit, .answerWorkspaces 0, .hydrate 0, .handle]

theorem lists_converge_afterOutage : ∃ st, Runs.run step (init oneLive) outage = some st ∧
    ((∀ id, st.store.sessions.lookup id = st.daemon.sessions.lookup id) ∧
      ∀ id, st.store.workspaces.lookup id = st.daemon.workspaces.lookup id) := by
  obtain ⟨st, hr, hrest, hcaught⟩ : ∃ st ∈ Runs.run step (init oneLive) outage,
      (st.wire = [] ∧ st.events = [] ∧ st.hydrates.length = 0 ∧ st.calls = [] ∧
        st.replies.length = 0) ∧ st.caughtUp = true := by
    decide +kernel
  obtain ⟨hwire, hevents, hhyd, hcalls, hreplies⟩ := hrest
  exact ⟨st, hr, lists_converge (fun _ => "w") oneLive (by decide +kernel) _ (by decide +kernel) hr
    ⟨hwire, hevents, List.length_eq_zero_iff.1 hhyd, hcalls, List.length_eq_zero_iff.1 hreplies⟩
    hcaught⟩

/-- A workspace is removed while the connection is down, and the hydrate that follows the reconnect
leaves it and its session in the store, live. -/
theorem removed_workspace_kept : ∃ st ∈ Runs.run step (init oneLive) (boots ++ [.disconnect,
      .serve (.removeWorkspace "w" ⟨none, none⟩), .reconnect, .handle, .handle, .answerSessions 0,
      .answerWorkspaces 0, .hydrate 0]),
    (st.wire = [] ∧ st.events = [] ∧ st.hydrates.length = 0 ∧ st.calls = [] ∧
      st.replies.length = 0) ∧
      st.caughtUp = true ∧ st.daemon.sessions.lookup "s" = none ∧
      st.daemon.workspaces.lookup "w" = none ∧
      st.store.sessions.lookup "s" = some liveSession ∧
      st.store.workspaces.lookup "w" = some oneWorkspace := by
  decide +kernel

end Runs

end ListsState

end BuilderPro
