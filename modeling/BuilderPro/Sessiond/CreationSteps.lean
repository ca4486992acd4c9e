import BuilderPro.Sessiond.RemovalSteps

/-!
# The steps of a creation

A creation draws an id that has never been used, and puts its session in the map, in the workspace's
live sessions and in the database one after the other.
-/

namespace BuilderPro

namespace RemovalSys

variable {s t : RemovalSys} {e : ServerDeps} {w : String}

theorem getElem?_setCreate {i : ℕ} {c : CreateReq} (hi : s.creates[i]? = some c) (pc : CreatePc)
    (j : ℕ) : (s.setCreate i c pc).creates[j]? =
      if i = j then some { c with pc := pc } else s.creates[j]? := by
  have hlt : i < s.creates.length := (List.getElem?_eq_some_iff.1 hi).1
  rw [setCreate, List.getElem?_set]
  simp [hlt]

/-- A creation that has gone on, with nothing new to register or to start, and through no gate. -/
theorem RemovalInv.setCreate (h : RemovalInv s) {i : ℕ} {c : CreateReq}
    (hi : s.creates[i]? = some c) {pc : CreatePc} (hins : ∀ x, pc ≠ .insert x)
    (hheld : ∀ id, pc.held = some id → id ∈ s.deps.usedIds)
    (hreg : ∀ id, c.pc.registering = some id → s.deps.tracked id = some (c.workspaceId, true) →
      id ∈ s.deps.liveSessions ∨ pc.registering = some id)
    (hun : pc.unregistered → c.pc.unregistered ∨ c.workspaceId ∈ s.deps.db.workspaces) :
    RemovalInv (s.setCreate i c pc) := by
  have hget := getElem?_setCreate hi pc
  refine ⟨h.used, h.live, h.workspaces, fun j w x hj => ?_, fun j k w v x y hj hk => ?_,
    fun c' hc' id hid => ?_, fun id w hw => ?_, fun r hr => ?_⟩
  · rw [hget] at hj
    split_ifs at hj
    · exact absurd (congrArg CreateReq.pc (Option.some.inj hj)) (hins x)
    · exact h.starting j w x hj
  · rw [hget] at hj hk
    split_ifs at hj with hij
    · exact absurd (congrArg CreateReq.pc (Option.some.inj hj)) (hins x)
    · split_ifs at hk with hik
      · exact absurd (congrArg CreateReq.pc (Option.some.inj hk)) (hins y)
      · exact h.distinct j k w v x y hj hk
  · rcases List.mem_or_eq_of_mem_set hc' with hc' | rfl
    · exact h.held c' hc' id hid
    · exact hheld id hid
  · rcases h.registered id w hw with hl | ⟨j, pc', hj, hr⟩
    · exact .inl hl
    · by_cases hij : i = j
      · subst hij
        obtain rfl : c = ⟨w, pc'⟩ := Option.some.inj (hi.symm.trans hj)
        exact (hreg id hr hw).imp_right fun hr' => ⟨i, pc, by simp [hget], hr'⟩
      · exact .inr ⟨j, pc', by simp [hget, hij, hj], hr⟩
  · have hok := h.removes r hr
    refine ⟨hok.ids, hok.closed, hok.deleted, fun todo htodo => ⟨(hok.swept todo htodo).1,
      fun c' hc' hw => ?_⟩⟩
    rcases List.mem_or_eq_of_mem_set hc' with hc' | rfl
    · exact (hok.swept todo htodo).2 c' hc' hw
    · cases hpc : pc.unregistered
      · rfl
      · rcases hun hpc with hc | hc
        · rw [(hok.swept todo htodo).2 c (List.mem_of_getElem? hi) hw] at hc
          cases hc
        · exact absurd (hw ▸ hc) (hok.deleted (deleted_of_todo htodo)).2

/-- A session's id is added to the live sessions. -/
theorem RemovalInv.addLive (h : RemovalInv s) {id : String} (hid : id ∈ s.deps.usedIds) :
    RemovalInv (s.withDeps { s.deps with liveSessions := s.deps.liveSessions.insert id }) where
  used := h.used
  live id' hl := by
    rcases List.mem_insert_iff.1 hl with rfl | hl
    · exact hid
    · exact h.live id' hl
  workspaces := h.workspaces
  starting := h.starting
  distinct := h.distinct
  held := h.held
  registered id' w hw := (h.registered id' w hw).imp_left List.mem_insert_of_mem
  removes r hr := ⟨(h.removes r hr).ids, (h.removes r hr).closed, (h.removes r hr).deleted,
    (h.removes r hr).swept⟩

/-- A session's row is written, whether it is known still or not. -/
theorem RemovalInv.write (h : RemovalInv s) {m : SessionMeta} (hid : m.id ∈ s.deps.usedIds) :
    RemovalInv (s.withDeps { s.deps with db := s.deps.db.tryUpsertSession m }) where
  used id hk := by
    rcases hk with hk | hk | hk
    · exact h.used id (.inl hk)
    · rw [withDeps, Db.lookup_tryUpsertSession] at hk
      split_ifs at hk with heq
      · exact heq.2 ▸ hid
      · exact h.used id (.inr (.inl hk))
    · exact h.used id (.inr (.inr hk))
  live := h.live
  workspaces w hw := h.workspaces w (Db.workspaces_tryUpsertSession (m := m) ▸ hw)
  starting := h.starting
  distinct := h.distinct
  held := h.held
  registered := h.registered
  removes r hr := by
    have hok := h.removes r hr
    refine ⟨hok.ids, hok.closed, fun hd => ⟨(hok.deleted hd).1, fun hw => (hok.deleted hd).2 ?_⟩,
      hok.swept⟩
    exact Db.workspaces_tryUpsertSession (m := m) ▸ hw

/-- A creation whose child is started, or has ended since. -/
theorem RemovalInv.start (h : RemovalInv s) {i : ℕ} {c : CreateReq}
    (hi : s.creates[i]? = some c) {x : Session} (hw : x.shared.workspaceId = c.workspaceId)
    (hu : x.id ∉ s.deps.usedIds)
    (hd : ∀ (j : ℕ) (w : String) (y : Session), s.creates[j]? = some (.mk w (.insert y)) →
      x.id = y.id → i = j)
    (hreg : c.pc.registering = none) (hun : c.pc.unregistered) :
    RemovalInv (s.setCreate i c (.insert x)) := by
  have hget := getElem?_setCreate hi (.insert x)
  refine ⟨h.used, h.live, h.workspaces, fun j w y hj => ?_, fun j k w v y z hj hk hyz => ?_,
    fun c' hc' id hid => ?_, fun id w hw => ?_, fun r hr => ?_⟩
  · rw [hget] at hj
    split_ifs at hj
    · cases hj
      exact ⟨hw, hu⟩
    · exact h.starting j w y hj
  · rw [hget] at hj hk
    split_ifs at hj with hij
    · split_ifs at hk with hik
      · exact hij.symm.trans hik
      · cases hj
        exact hij.symm.trans (hd k v z hk hyz)
    · split_ifs at hk with hik
      · cases hk
        exact (hik.symm.trans (hd j w y hj hyz.symm)).symm
      · exact h.distinct j k w v y z hj hk hyz
  · rcases List.mem_or_eq_of_mem_set hc' with hc' | rfl
    · exact h.held c' hc' id hid
    · cases hid
  · rcases h.registered id w hw with hl | ⟨j, pc', hj, hr⟩
    · exact .inl hl
    · refine .inr ⟨j, pc', ?_, hr⟩
      rw [hget, if_neg, hj]
      rintro rfl
      obtain rfl : c = ⟨w, pc'⟩ := Option.some.inj (hi.symm.trans hj)
      rw [hr] at hreg
      cases hreg
  · have hok := h.removes r hr
    refine ⟨hok.ids, hok.closed, hok.deleted, fun todo htodo => ⟨(hok.swept todo htodo).1,
      fun c' hc' hw => ?_⟩⟩
    rcases List.mem_or_eq_of_mem_set hc' with hc' | rfl
    · exact (hok.swept todo htodo).2 c' hc' hw
    · rw [(hok.swept todo htodo).2 c (List.mem_of_getElem? hi) hw] at hun
      cases hun

theorem tracked_insertSession {d : ServerDeps} {id : String} (x : Session) :
    (d.insertSession x).tracked id =
      if id = x.id then some (x.shared.workspaceId, x.pty.isSome) else d.tracked id :=
  ServerDeps.tracked_upsert rfl

/-- A started session is put into the map. -/
theorem removalInv_insert (h : RemovalInv s) {i : ℕ} {c : CreateReq} {x : Session}
    (hi : s.creates[i]? = some c) (hc : c.pc = .insert x) :
    RemovalInv ((s.withDeps (s.deps.insertSession x)).setCreate i c (.getMeta x.id)) := by
  obtain ⟨v₀, pc⟩ := c
  obtain rfl : pc = .insert x := hc
  obtain ⟨hw, hu⟩ := h.starting i _ x hi
  have hget := getElem?_setCreate (s := s.withDeps (s.deps.insertSession x)) hi (.getMeta x.id)
  have hused {id : String} (hid : id ∈ s.deps.usedIds) : id ∈ (s.deps.insertSession x).usedIds :=
    List.mem_insert_of_mem hid
  have hself : x.id ∈ (s.deps.insertSession x).usedIds := List.mem_insert_self
  have htr {id w : String} (ht : (s.deps.insertSession x).tracked id = some (w, true)) :
      id = x.id ∧ w = v₀ ∨ s.deps.tracked id = some (w, true) := by
    rw [tracked_insertSession] at ht
    split_ifs at ht with hid
    · obtain ⟨rfl, -⟩ := Prod.mk.inj (Option.some.inj ht)
      exact .inl ⟨hid, hw⟩
    · exact .inr ht
  refine ⟨fun id hk => ?_, fun id hl => hused (h.live id hl), h.workspaces, fun j w y hj => ?_,
    fun j k w v y z hj hk hyz => ?_, fun c' hc' id hid => ?_, fun id w ht => ?_, fun r hr => ?_⟩
  · rcases hk with hk | hk | hk
    · replace hk : ((s.deps.insertSession x).tracked id).isSome := hk
      rw [tracked_insertSession] at hk
      split_ifs at hk with hid
      · exact hid ▸ hself
      · exact hused (h.used id (.inl hk))
    · exact hused (h.used id (.inr (.inl hk)))
    · exact hused (h.used id (.inr (.inr hk)))
  · rw [hget] at hj
    split_ifs at hj with hij
    · cases hj
    · refine ⟨(h.starting j w y hj).1, fun hy => ?_⟩
      rcases List.mem_insert_iff.1 hy with hy | hy
      · exact hij (h.distinct i j _ w x y hi hj hy.symm)
      · exact (h.starting j w y hj).2 hy
  · rw [hget] at hj hk
    split_ifs at hj
    · cases hj
    · split_ifs at hk
      · cases hk
      · exact h.distinct j k w v y z hj hk hyz
  · rcases List.mem_or_eq_of_mem_set hc' with hc' | rfl
    · exact hused (h.held c' hc' id hid)
    · cases hid
      exact hself
  · rcases htr ht with ⟨rfl, rfl⟩ | ht
    · exact .inr ⟨i, .getMeta x.id, by simp [hget], rfl⟩
    · rcases h.registered id w ht with hl | ⟨j, pc', hj, hr⟩
      · exact .inl hl
      · refine .inr ⟨j, pc', ?_, hr⟩
        rw [hget, if_neg]
        · exact hj
        · rintro rfl
          obtain ⟨-, rfl⟩ := CreateReq.mk.inj (Option.some.inj (hi.symm.trans hj))
          cases hr
  · have hok := h.removes r hr
    have hno (todo : List String) (htodo : r.pc.todo = some todo) : v₀ ≠ r.workspaceId := by
      intro hcr
      have := (hok.swept todo htodo).2 _ (List.mem_of_getElem? hi) hcr
      cases this
    refine ⟨fun id hid => hused (hok.ids id hid), fun id hid w ht => ?_, hok.deleted,
      fun todo htodo => ⟨fun id ht => ?_, fun c' hc' hcw => ?_⟩⟩
    · rcases htr ht with ⟨rfl, -⟩ | ht
      · exact hu (hok.ids _ (ids_of_closed hid))
      · exact hok.closed id hid w ht
    · rcases htr ht with ⟨-, hcr⟩ | ht
      · exact absurd hcr.symm (hno todo htodo)
      · exact (hok.swept todo htodo).1 id ht
    · rcases List.mem_or_eq_of_mem_set hc' with hc' | rfl
      · exact (hok.swept todo htodo).2 c' hc' hcw
      · exact absurd hcw (hno todo htodo)

/-- A creation that replies. -/
theorem RemovalInv.reply (h : RemovalInv s) {i : ℕ} {c : CreateReq} (hi : s.creates[i]? = some c)
    (r : Response) (hreg : ∀ id, c.pc.registering = some id →
      s.deps.tracked id = some (c.workspaceId, true) → id ∈ s.deps.liveSessions) :
    RemovalInv (s.setCreate i c (.done r)) := by
  refine h.setCreate hi (fun x hx => ?_) (fun id hid => ?_) (fun id h1 h2 => .inl (hreg id h1 h2))
    fun hun => ?_
  · cases hx
  · cases hid
  · cases hun

theorem removalInv_createStep (h : RemovalInv s) {i : ℕ} {c : CreateReq}
    (hi : s.creates[i]? = some c) (ht : s.createStep i c = some t) : RemovalInv t := by
  have hheld {id : String} (hid : c.pc.held = some id) : id ∈ s.deps.usedIds :=
    h.held c (List.mem_of_getElem? hi) id hid
  have hnone (hn : c.pc.registering = none) (id : String) (hid : c.pc.registering = some id)
      {p : Prop} : p := by
    rw [hn] at hid
    cases hid
  unfold createStep at ht
  rcases hc : c.pc with _ | _ | _ | x | id | m | m | r <;> simp only [hc] at ht
  case closing =>
    split_ifs at ht <;> cases ht
    · exact h.reply hi _ fun id hid _ => hnone (by rw [hc]; rfl) id hid
    · refine h.setCreate hi (fun x hx => ?_) (fun id hid => ?_)
        (fun id hid _ => hnone (by rw [hc]; rfl) id hid) fun hun => ?_
      · cases hx
      · cases hid
      · cases hun
  case workspaceExists =>
    split_ifs at ht with hw <;> cases ht
    · refine h.setCreate hi (fun x hx => ?_) (fun id hid => ?_)
        (fun id hid _ => hnone (by rw [hc]; rfl) id hid) fun _ => .inr (List.contains_iff_mem.1 hw)
      · cases hx
      · cases hid
    · exact h.reply hi _ fun id hid _ => hnone (by rw [hc]; rfl) id hid
  case create => cases ht
  case insert =>
    cases ht
    exact removalInv_insert h hi hc
  case getMeta =>
    split at ht <;> cases ht
    · rename_i m hm
      obtain rfl : m.id = id := ServerDeps.getMeta_id hm
      refine h.setCreate hi (fun x hx => ?_) (fun id hid => ?_) (fun id hid _ => ?_) fun _ => ?_
      · cases hx
      · exact hheld (by rw [hc]; exact hid)
      · rw [hc] at hid
        exact .inr hid
      · rw [hc]
        exact .inl rfl
    · rename_i hm
      refine h.reply hi _ fun id' hid hw => ?_
      rw [hc] at hid
      obtain rfl : id = id' := Option.some.inj hid
      have : (s.deps.getMeta id).isSome = _ := ServerDeps.getMeta_isSome
      rw [hm, hw] at this
      cases this
  case track =>
    cases ht
    have hid : m.id ∈ s.deps.usedIds := hheld (by rw [hc]; rfl)
    refine (h.addLive hid).setCreate hi (fun x hx => ?_) (fun id hid' => ?_)
      (fun id hid' _ => .inl ?_) fun hun => ?_
    · cases hx
    · obtain rfl : m.id = id := Option.some.inj hid'
      exact hid
    · rw [hc] at hid'
      obtain rfl : m.id = id := Option.some.inj hid'
      exact List.mem_insert_self
    · cases hun
  case persist =>
    cases ht
    exact (h.write (hheld (by rw [hc]; rfl))).reply hi _
      fun id hid _ => hnone (by rw [hc]; rfl) id hid
  case done => cases ht

theorem mem_starting {i : ℕ} {x : Session} (hi : s.creates[i]? = some (.mk w (.insert x))) :
    x.id ∈ s.starting :=
  List.mem_filterMap.2 ⟨_, List.mem_of_getElem? hi, rfl⟩

theorem removalInv_spawnStep (h : RemovalInv s) {i : ℕ} {c : CreateReq} {spec : SessionSpec}
    {id : String} {now : Int} (hi : s.creates[i]? = some c)
    (ht : s.spawnStep i c spec id now = some t) : RemovalInv t := by
  unfold spawnStep at ht
  split at ht
  · rename_i hc
    split_ifs at ht with hid
    cases ht
    obtain ⟨hu, hs⟩ := not_or.1 hid
    refine h.start hi rfl hu (fun j w y hj hxy => ?_) (by rw [hc]; rfl) (by rw [hc]; rfl)
    refine absurd ?_ hs
    rw [show id = y.id from hxy]
    exact mem_starting hj
  · cases ht

theorem removalInv_earlyStep (h : RemovalInv s) {i : ℕ} {c : CreateReq} {status : ExitStatus}
    (hi : s.creates[i]? = some c) (ht : s.earlyStep i c status = some t) : RemovalInv t := by
  obtain ⟨v, pc⟩ := c
  unfold earlyStep at ht
  split at ht
  · rename_i sh p hn hc
    obtain rfl : pc = .insert ⟨sh, some p, hn⟩ := hc
    cases ht
    obtain ⟨hw, hu⟩ := h.starting i v _ hi
    exact h.start hi hw hu (fun j w y hj hxy => h.distinct i j v w _ y hi hj hxy) rfl rfl
  · cases ht

theorem removalInv_startCreate (h : RemovalInv s) (w : String) :
    RemovalInv { s with creates := s.creates ++ [⟨w, .closing⟩] } := by
  have hold {j : ℕ} {c : CreateReq} (hj : (s.creates ++ [⟨w, .closing⟩])[j]? = some c) :
      s.creates[j]? = some c ∨ c = ⟨w, .closing⟩ := by
    by_cases hlt : j < s.creates.length
    · exact .inl (by rwa [List.getElem?_append_left hlt] at hj)
    · rw [List.getElem?_append_right (not_lt.1 hlt)] at hj
      exact .inr (List.mem_singleton.1 (List.mem_of_getElem? hj))
  refine ⟨h.used, h.live, h.workspaces, fun j v x hj => ?_, fun j k v v' x y hj hk => ?_,
    fun c hc id hid => ?_, fun id v hv => ?_, fun r hr => ?_⟩
  · rcases hold hj with hj | hj
    · exact h.starting j v x hj
    · cases hj
  · rcases hold hj with hj | hj
    · rcases hold hk with hk | hk
      · exact h.distinct j k v v' x y hj hk
      · cases hk
    · cases hj
  · rcases List.mem_append.1 hc with hc | hc
    · exact h.held c hc id hid
    · obtain rfl := List.mem_singleton.1 hc
      cases hid
  · refine (h.registered id v hv).imp_right ?_
    rintro ⟨i, pc, hi, hreg⟩
    refine ⟨i, pc, ?_, hreg⟩
    rw [List.getElem?_append_left (List.getElem?_eq_some_iff.1 hi).1]
    exact hi
  · have hok := h.removes r hr
    refine ⟨hok.ids, hok.closed, hok.deleted, fun todo htodo => ⟨(hok.swept todo htodo).1,
      fun c hc hcw => ?_⟩⟩
    rcases List.mem_append.1 hc with hc | hc
    · exact (hok.swept todo htodo).2 c hc hcw
    · obtain rfl := List.mem_singleton.1 hc
      rfl

end RemovalSys

end BuilderPro
