import BuilderPro.App.StdinWrites

/-!
# The steps of a write

A write holds its session's lock from its first chunk to its last, so the requests of a session that
were not refused or lost are those of one call after another (`WriteInv.blocks`): what each step of a
call leaves of that.
-/

namespace BuilderPro

namespace WriteSys

variable {s t : WriteSys} {i : ℕ} {c c' : WriteCall} {session : String}

theorem underWay_of_holds (h : c.holds = true) : c.underWay = true := by
  unfold WriteCall.holds at h
  unfold WriteCall.underWay
  split at h <;> simp_all

/-- One call of a session at a time holds its lock. -/
theorem WriteInv.holds_unique (hI : s.WriteInv) {j : ℕ} {d : WriteCall}
    (hc : s.calls[i]? = some c) (hd : s.calls[j]? = some d) (hsession : c.session = d.session)
    (hcholds : c.holds = true) (hdholds : d.holds = true) : i = j := by
  have hlock := hI.lock i j c hc d hd (underWay_of_holds hcholds) (underWay_of_holds hdholds)
    hsession
  have hi := (hI.calls i c hc).holder hcholds
  have hj := (hI.calls j d hd).holder hdholds
  rw [hsession, hlock, hj] at hi
  exact (Option.some.inj hi).symm

/-- A step that leaves the line and what the call goes by. -/
theorem CallInv.frame (h : s.CallInv i c) (hline : ∀ session, t.line session = s.line session)
    (haccepted : ∀ session, ∀ p ∈ s.accepted session, p ∈ t.accepted session)
    (hcreated : s.created c.session ≤ t.created c.session)
    (hholder : c.holds = true → t.holder c.session c.lock = some i) : t.CallInv i c where
  short := h.short
  created hpc := Nat.lt_of_lt_of_le (h.created hpc) hcreated
  holder := hholder
  entries session k hk := h.entries session k (hline session ▸ hk)
  below k hk := haccepted _ _ (h.below k hk)
  fresh := h.fresh
  unsent hpc hsent := hline c.session ▸ h.unsent hpc hsent
  accepted hpc := haccepted _ _ (h.accepted hpc)
  refused hpc := hline c.session ▸ h.refused hpc
  finished := h.finished
  last hh hk := by
    rw [hline] at hk ⊢
    exact h.last hh hk
  last_acked hh hk j hj := by
    rw [hline] at hk ⊢
    exact h.last_acked hh hk j hj

/-- A step that rewrites one call and leaves the line. -/
theorem WriteInv.rewrite (hI : s.WriteInv) (hget : s.calls[i]? = some c)
    (hset : ∀ j : ℕ, t.calls[j]? = if j = i then some c' else s.calls[j]?)
    (hsession : c'.session = c.session)
    (hnext : c'.next = c.next ∨ ∀ e ∈ s.wire c.session, e.call ≠ i)
    (hline : ∀ session, t.line session = s.line session)
    (hwire : ∀ session, ∀ e ∈ t.wire session, e ∈ s.wire session)
    (haccepted : ∀ session, ∀ p ∈ s.accepted session, p ∈ t.accepted session)
    (hcreated : ∀ session, s.created session ≤ t.created session)
    (hC : t.CallInv i c')
    (hholds : ∀ j d, s.calls[j]? = some d → j ≠ i → d.holds = true →
      t.holder d.session d.lock = some j)
    (hholder : ∀ session l j, t.holder session l = some j → (j = i ∧ c'.session = session
      ∧ c'.lock = l ∧ c'.holds = true) ∨ (j ≠ i ∧ s.holder session l = some j))
    (hlock : c'.underWay = true → ∀ j d, s.calls[j]? = some d → j ≠ i → d.underWay = true →
      d.session = c.session → d.lock = c'.lock)
    (hmap : ∀ session l, t.locks session = some l → l < t.created session
      ∧ (c'.underWay = true → c.session = session → c'.lock = l)
      ∧ ∀ j d, s.calls[j]? = some d → j ≠ i → d.session = session → d.underWay = true →
        d.lock = l) : t.WriteInv := by
  have hcases : ∀ (j : ℕ), ∀ d ∈ t.calls[j]?, (j = i ∧ d = c') ∨ (j ≠ i ∧ d ∈ s.calls[j]?) := by
    intro j d hd
    rw [hset] at hd
    split_ifs at hd with hj
    · exact .inl ⟨hj, (Option.mem_some_iff.1 hd).symm⟩
    · exact .inr ⟨hj, hd⟩
  refine ⟨fun j d hd => ?_, fun session j k hk => ?_, fun session => ?_, fun session e he d hd => ?_,
    fun session l j hj => ?_, fun j k d hd e he hdu heu hs => ?_, fun session l hl => ?_⟩
  · rcases hcases j d hd with ⟨rfl, rfl⟩ | ⟨hj, hd⟩
    · exact hC
    · exact (hI.calls j d hd).frame hline haccepted (hcreated _) (hholds j d hd hj)
  · rw [hline] at hk
    obtain ⟨d, hd⟩ := hI.exists_call session j k hk
    rw [hset]
    split_ifs
    · exact ⟨c', rfl⟩
    · exact ⟨d, hd⟩
  · rw [hline]
    exact hI.blocks session
  · have he := hwire session e he
    rcases hcases e.call d hd with ⟨hj, rfl⟩ | ⟨-, hd⟩
    · have hmem : (i, e.chunk) ∈ s.line session :=
        List.mem_append_right _ (List.mem_map.2 ⟨e, he, by rw [← hj]⟩)
      obtain ⟨rfl, -⟩ := (hI.calls i c hget).entries session e.chunk hmem
      rcases hnext with hnext | hnext
      · rw [hnext]
        exact hI.chunk _ e he c (hj ▸ hget)
      · exact absurd hj (hnext e he)
    · exact hI.chunk session e he d hd
  · rcases hholder session l j hj with ⟨rfl, hrest⟩ | ⟨hji, hj⟩
    · exact ⟨c', by rw [hset, if_pos rfl]; rfl, hrest⟩
    · obtain ⟨d, hd, hrest⟩ := hI.holder session l j hj
      exact ⟨d, by rw [hset, if_neg hji]; exact hd, hrest⟩
  · rcases hcases j d hd with ⟨rfl, rfl⟩ | ⟨hj, hd⟩
    · rcases hcases k e he with ⟨rfl, rfl⟩ | ⟨hk, he⟩
      · rfl
      · exact (hlock hdu k e he hk heu (hs.symm.trans hsession)).symm
    · rcases hcases k e he with ⟨rfl, rfl⟩ | ⟨hk, he⟩
      · exact hlock heu j d hd hj hdu (hs.trans hsession)
      · exact hI.lock j k d hd e he hdu heu hs
  · obtain ⟨hlt, hnew, hold⟩ := hmap session l hl
    refine ⟨hlt, fun d hd hs hdu => ?_⟩
    obtain ⟨j, hj⟩ := List.mem_iff_getElem?.1 hd
    rcases hcases j d hj with ⟨rfl, rfl⟩ | ⟨hji, hj⟩
    · exact hnew hdu (hsession ▸ hs)
    · exact hold j d hj hji hs hdu

@[simp] theorem line_setCall (c : WriteCall) (session : String) :
    (s.setCall i c).line session = s.line session := rfl

theorem writeInv_invoke (hI : s.WriteInv) {data : List UInt8}
    (hshort : session.utf8ByteSize ≤ sessionIdMax) :
    WriteInv { s with calls := s.calls ++ [⟨session, data, 0, 0, .start⟩] } := by
  have hnot : ∀ session k, (s.calls.length, k) ∉ s.line session := by
    intro session k hk
    obtain ⟨c, hc⟩ := hI.exists_call session _ k hk
    exact Nat.lt_irrefl _ (List.getElem?_eq_some_iff.1 hc).1
  refine ⟨Slots.forall_concat hI.calls ?_ ?_, fun session' j k hk => ?_, hI.blocks,
    fun session' e he d hd => ?_, fun session' l j hj => ?_, fun j k d hd e he hdu heu hs => ?_,
    fun session' l hl => ?_⟩
  · exact ⟨hshort, fun h => absurd rfl h, nofun, fun session' k hk => absurd hk (hnot session' k),
      nofun, fun _ => rfl, fun _ _ => hnot _ _, nofun, nofun, nofun, nofun, nofun⟩
  · intro j c hc hC
    exact hC.frame (fun _ => rfl) (fun _ _ h => h) (Nat.le_refl _) hC.holder
  · obtain ⟨d, hd⟩ := hI.exists_call session' j k hk
    exact ⟨d, Slots.mem_getElem?_concat.2 (.inl hd)⟩
  · rcases Slots.mem_getElem?_concat.1 hd with hd | ⟨hj, rfl⟩
    · exact hI.chunk session' e he d hd
    · refine absurd (List.mem_append_right _ (List.mem_map.2 ⟨e, he, ?_⟩)) (hnot session' e.chunk)
      rw [hj]
  · obtain ⟨d, hd, hrest⟩ := hI.holder session' l j hj
    exact ⟨d, Slots.mem_getElem?_concat.2 (.inl hd), hrest⟩
  · rcases Slots.mem_getElem?_concat.1 hd with hd | ⟨-, rfl⟩
    · rcases Slots.mem_getElem?_concat.1 he with he | ⟨-, rfl⟩
      · exact hI.lock j k d hd e he hdu heu hs
      · cases heu
    · cases hdu
  · obtain ⟨hlt, hmap⟩ := hI.map session' l hl
    refine ⟨hlt, fun d hd hs hdu => ?_⟩
    rcases List.mem_append.1 hd with hd | hd
    · exact hmap d hd hs hdu
    · obtain rfl := List.mem_singleton.1 hd
      cases hdu

/-- A holder of a lock is no call that does not hold one. -/
theorem WriteInv.holder_ne (hI : s.WriteInv) (hget : s.calls[i]? = some c)
    (hnot : c.holds = false) {l : ℕ} : s.holder session l ≠ some i := by
  intro h
  obtain ⟨d, hd, -, -, hholds⟩ := hI.holder session l i h
  obtain rfl : c = d := by simpa [hget] using hd
  rw [hnot] at hholds
  cases hholds

theorem writeInv_lockFor (hI : s.WriteInv) (hget : s.calls[i]? = some c)
    (hturn : s.InTurn (.lockFor i)) (h : s.lockFor i c = some t) : t.WriteInv := by
  unfold lockFor at h
  rw [Option.ite_none_right_eq_some] at h
  obtain ⟨hpc, h⟩ := h
  have hC := hI.calls i c hget
  have hnot : c.holds = false := by simp [WriteCall.holds, hpc]
  have hnext := hC.fresh (.inl hpc)
  have hunsent := hC.unsent (by simp [hpc]) (by simp [hpc])
  have hCI : ∀ (u : WriteSys) (l : ℕ), (∀ session, u.line session = s.line session) →
      u.accepted = s.accepted → l < u.created c.session →
      u.CallInv i { c with lock := l, pc := .waiting } := by
    intro u l hline haccepted hl
    refine ⟨hC.short, fun _ => hl, nofun, fun session k hk => hC.entries session k (hline _ ▸ hk),
      fun k hk => by rw [haccepted]; exact hC.below k hk, fun _ => hnext, fun _ _ => ?_, nofun,
      nofun, nofun, nofun, nofun⟩
    rw [hline]
    exact hunsent
  split at h
  · rename_i l hl
    cases h
    obtain ⟨hlt, hmap⟩ := hI.map c.session l hl
    refine hI.rewrite hget (Slots.getElem?_set hget _) rfl (.inl rfl) (fun _ => rfl)
      (fun _ _ h => h) (fun _ _ h => h) (fun _ => Nat.le_refl _)
      (hCI _ l (fun _ => rfl) rfl hlt) (fun j d hd _ => (hI.calls j d hd).holder) ?_ ?_ ?_
    · intro session l' j hj
      refine .inr ⟨?_, hj⟩
      rintro rfl
      exact hI.holder_ne hget hnot hj
    · intro _ j d hd _ hdu hs
      exact hmap d (List.mem_of_getElem? hd) hs hdu
    · intro session l' hl'
      obtain ⟨hlt', hmap'⟩ := hI.map session l' hl'
      refine ⟨hlt', fun _ hs => ?_, fun j d hd _ => hmap' d (List.mem_of_getElem? hd)⟩
      subst hs
      exact Option.some.inj (hl.symm.trans hl')
  · rename_i hnone
    cases h
    have hother := hturn c hget hnone
    have hcreated : ∀ session, s.created session
        ≤ Function.update s.created c.session (s.created c.session + 1) session := by
      intro session
      by_cases hs : session = c.session
      · simp [hs]
      · simp [hs]
    refine hI.rewrite hget (Slots.getElem?_set hget _) rfl (.inl rfl) (fun _ => rfl)
      (fun _ _ h => h) (fun _ _ h => h) hcreated
      (hCI _ _ (fun _ => rfl) rfl (by simp)) (fun j d hd _ => (hI.calls j d hd).holder) ?_ ?_ ?_
    · intro session l' j hj
      refine .inr ⟨?_, hj⟩
      rintro rfl
      exact hI.holder_ne hget hnot hj
    · intro _ j d hd _ hdu hs
      rw [hother d (List.mem_of_getElem? hd) hs] at hdu
      cases hdu
    · intro session l' hl'
      by_cases hs : session = c.session
      · subst hs
        obtain rfl : s.created c.session = l' := by simpa using hl'
        refine ⟨by simp, fun _ _ => rfl, fun j d hd _ hs hdu => ?_⟩
        rw [hother d (List.mem_of_getElem? hd) hs] at hdu
        cases hdu
      · obtain ⟨hlt', hmap'⟩ := hI.map session l' (by simpa [hs] using hl')
        refine ⟨by simpa [hs] using hlt', fun _ hs' => absurd hs'.symm hs,
          fun j d hd _ => hmap' d (List.mem_of_getElem? hd)⟩

theorem setHolder_eq (session session' : String) (l l' : ℕ) (o : Option ℕ) :
    s.setHolder session l o session' l'
      = if session' = session ∧ l' = l then o else s.holder session' l' := by
  unfold setHolder
  by_cases hs : session' = session
  · subst hs
    by_cases hl : l' = l
    · simp [hl]
    · simp [hl]
  · simp [hs]

theorem writeInv_acquire (hI : s.WriteInv) (hget : s.calls[i]? = some c)
    (h : s.acquire i c = some t) : t.WriteInv := by
  unfold acquire at h
  rw [Option.ite_none_right_eq_some] at h
  obtain ⟨⟨hpc, hfree⟩, h⟩ := h
  cases h
  have hC := hI.calls i c hget
  have hnot : c.holds = false := by simp [WriteCall.holds, hpc]
  have hunder : c.underWay = true := by simp [WriteCall.underWay, hpc]
  have hnext := hC.fresh (.inr hpc)
  have hunsent := hC.unsent (by simp [hpc]) (by simp [hpc])
  refine hI.rewrite hget (Slots.getElem?_set hget _) rfl (.inl rfl) (fun _ => rfl)
      (fun _ _ h => h) (fun _ _ h => h) (fun _ => Nat.le_refl _) ?_ ?_ ?_ ?_ ?_
  · exact ⟨hC.short, fun _ => hC.created (by simp [hpc]), fun _ => by simp [setHolder_eq],
      hC.entries, hC.below, by simp, fun _ _ => hunsent, nofun, nofun, nofun,
      fun _ hk => absurd hk hunsent, fun _ _ j hj => by simp [hnext] at hj⟩
  · intro j d hd hj hholds
    have hheld := (hI.calls j d hd).holder hholds
    show s.setHolder c.session c.lock (some i) d.session d.lock = some j
    rw [setHolder_eq, if_neg]
    · exact hheld
    · rintro ⟨hs, hl⟩
      rw [hs, hl, hfree] at hheld
      cases hheld
  · intro session l j hj
    change s.setHolder c.session c.lock (some i) session l = some j at hj
    rw [setHolder_eq] at hj
    split_ifs at hj with heq
    · obtain rfl : i = j := Option.some.inj hj
      exact .inl ⟨rfl, heq.1.symm, heq.2.symm, rfl⟩
    · refine .inr ⟨?_, hj⟩
      rintro rfl
      exact hI.holder_ne hget hnot hj
  · intro _ j d hd _ hdu hs
    exact hI.lock j i d hd c hget hdu hunder hs
  · intro session l hl
    obtain ⟨hlt, hmap⟩ := hI.map session l hl
    exact ⟨hlt, fun _ hs => hmap c (List.mem_of_getElem? hget) hs hunder,
      fun j d hd _ => hmap d (List.mem_of_getElem? hd)⟩

/-- Rewriting a call that is under way in what its lock does not go by. -/
theorem WriteInv.rewrite_sent (hI : s.WriteInv) (hget : s.calls[i]? = some c)
    (hset : ∀ j : ℕ, t.calls[j]? = if j = i then some c' else s.calls[j]?)
    (hsession : c'.session = c.session) (hlock : c'.lock = c.lock)
    (hholds : c'.holds = c.holds) (hunder : c'.underWay = c.underWay)
    (hnext : c'.next = c.next ∨ ∀ e ∈ s.wire c.session, e.call ≠ i)
    (hline : ∀ session, t.line session = s.line session)
    (hwire : ∀ session, ∀ e ∈ t.wire session, e ∈ s.wire session)
    (haccepted : ∀ session, ∀ p ∈ s.accepted session, p ∈ t.accepted session)
    (hlocks : t.locks = s.locks) (hcreated : t.created = s.created) (hholder : t.holder = s.holder)
    (hC : t.CallInv i c') : t.WriteInv := by
  refine hI.rewrite hget hset hsession hnext hline hwire haccepted
    (fun _ => hcreated ▸ Nat.le_refl _) hC (fun j d hd _ => hholder ▸ (hI.calls j d hd).holder)
    ?_ ?_ ?_
  · intro session l j hj
    rw [hholder] at hj
    by_cases hji : j = i
    · subst hji
      obtain ⟨d, hd, hs, hl, hh⟩ := hI.holder session l j hj
      obtain rfl : c = d := by simpa [hget] using hd
      exact .inl ⟨rfl, hsession.trans hs, hlock.trans hl, hholds.trans hh⟩
    · exact .inr ⟨hji, hj⟩
  · intro hu j d hd _ hdu hs
    rw [hlock]
    exact hI.lock j i d hd c hget hdu (hunder ▸ hu) hs
  · intro session l hl
    rw [hlocks] at hl
    rw [hcreated, hunder, hlock]
    obtain ⟨hlt, hmap⟩ := hI.map session l hl
    exact ⟨hlt, fun hu hs => hmap c (List.mem_of_getElem? hget) hs hu,
      fun j d hd _ => hmap d (List.mem_of_getElem? hd)⟩

theorem writeInv_ack (hI : s.WriteInv) (hget : s.calls[i]? = some c)
    (hpc : c.pc = .sent (some true)) :
    (s.setCall i { c with pc := .holding, next := c.next + 1 }).WriteInv := by
  have hC := hI.calls i c hget
  have hholds : c.holds = true := by simp [WriteCall.holds, hpc]
  have hacc := hC.accepted hpc
  have hmem : (i, c.next) ∈ s.line c.session := List.mem_append_left _ hacc
  have hentry := hC.entries c.session c.next hmem
  have hnot : (i, c.next + 1) ∉ s.line c.session := by
    intro h
    have := (hC.entries c.session _ h).2.1
    omega
  have hlast := hC.last hholds hmem
  refine hI.rewrite_sent hget (Slots.getElem?_set hget _) rfl rfl (by simp [WriteCall.holds, hpc])
    (by simp [WriteCall.underWay, hpc]) (.inr fun e he hei => ?_) (fun _ => rfl)
    (fun _ _ h => h) (fun _ _ h => h) rfl rfl rfl ?_
  · -- the acknowledged chunk is on its way no more
    have hchunk := hI.chunk _ e he c (by rw [hei]; exact hget)
    have hnodup := (hI.blocks c.session).nodup
    exact (List.nodup_append.1 hnodup).2.2 _ hacc _
      (List.mem_map.2 ⟨e, he, by rw [hei, hchunk]⟩) rfl
  · refine ⟨hC.short, fun _ => hC.created (by simp [hpc]), fun _ => hC.holder hholds,
      fun session k hk => ?_, fun k hk => ?_, by simp, fun _ _ => hnot, nofun, nofun, nofun,
      fun _ h => absurd h hnot, fun _ _ j hj => ?_⟩
    · obtain ⟨hs, hle, hlt⟩ := hC.entries session k hk
      exact ⟨hs, Nat.le_succ_of_le hle, hlt⟩
    · by_cases hkn : k = c.next
      · rw [hkn]
        exact hacc
      · exact hC.below k (by dsimp only at hk; omega)
    · obtain rfl : c.next = j := by simpa using hj
      exact hlast

/-- The lock is given back. -/
theorem writeInv_release (hI : s.WriteInv) (hget : s.calls[i]? = some c) (hholds : c.holds = true)
    {ok : Bool} (hunsent : ok = true → (i, c.next) ∉ s.line c.session)
    (hfinished : ok = true → c.next = c.chunks.length) : (s.release i c ok).WriteInv := by
  have hC := hI.calls i c hget
  refine hI.rewrite hget (Slots.getElem?_set hget _) rfl (.inl rfl) (fun _ => rfl)
    (fun _ _ h => h) (fun _ _ h => h) (fun _ => Nat.le_refl _) ?_ ?_ ?_ nofun ?_
  · refine ⟨hC.short, fun _ => hC.created ?_, nofun, hC.entries, hC.below, by simp,
      fun hnot _ => hunsent ?_, nofun, nofun, fun h => hfinished ?_, nofun, nofun⟩
    · rintro hpc
      simp [WriteCall.holds, hpc] at hholds
    · cases ok
      · exact absurd rfl hnot
      · rfl
    · cases ok
      · cases h
      · rfl
  · intro j d hd hj hdholds
    have hheld := (hI.calls j d hd).holder hdholds
    show s.setHolder c.session c.lock none d.session d.lock = some j
    rw [setHolder_eq, if_neg]
    · exact hheld
    · rintro ⟨hs, hl⟩
      rw [hs, hl, hC.holder hholds] at hheld
      exact hj (Option.some.inj hheld).symm
  · intro session l j hj
    change s.setHolder c.session c.lock none session l = some j at hj
    rw [setHolder_eq] at hj
    split_ifs at hj with heq
    refine .inr ⟨?_, hj⟩
    rintro rfl
    obtain ⟨d, hd, hs, hl, -⟩ := hI.holder session l j hj
    obtain rfl : c = d := by simpa [hget] using hd
    exact heq ⟨hs.symm, hl.symm⟩
  · intro session l hl
    obtain ⟨hlt, hmap⟩ := hI.map session l hl
    exact ⟨hlt, nofun, fun j d hd _ => hmap d (List.mem_of_getElem? hd)⟩

/-- The chunk a call waits for goes on the line, at its end. -/
theorem writeInv_append (hI : s.WriteInv) (hget : s.calls[i]? = some c)
    (hpc : c.pc = .sent none) (hnot : (i, c.next) ∉ s.line c.session)
    (hlt : c.next < c.chunks.length) (conn : ℕ) : WriteInv { s with
      wire := Function.update s.wire c.session (s.wire c.session ++ [⟨conn, i, c.next⟩]) } := by
  set t : WriteSys := { s with
    wire := Function.update s.wire c.session (s.wire c.session ++ [⟨conn, i, c.next⟩]) } with ht
  have hholds : c.holds = true := by simp [WriteCall.holds, hpc]
  have hline : t.line c.session = s.line c.session ++ [(i, c.next)] := by
    simp [ht, line]
  have hother : ∀ session, session ≠ c.session → t.line session = s.line session := by
    intro session hs
    simp [ht, line, hs]
  have hmem : ∀ session j k, (j, k) ∈ t.line session →
      (j, k) ∈ s.line session ∨ (j = i ∧ k = c.next ∧ session = c.session) := by
    intro session j k hk
    by_cases hs : session = c.session
    · subst hs
      rw [hline, List.mem_append, List.mem_singleton, Prod.mk.injEq] at hk
      exact hk.imp_right fun h => ⟨h.1, h.2, rfl⟩
    · exact .inl (hother session hs ▸ hk)
  refine ⟨fun j d hd => ?_, fun session j k hk => ?_, fun session => ?_, fun session e he d hd => ?_,
    hI.holder, hI.lock, hI.map⟩
  · have hD := hI.calls j d hd
    by_cases hj : j = i
    · subst hj
      obtain rfl := Option.mem_unique hget hd
      refine ⟨hD.short, hD.created, hD.holder, fun session k hk => ?_, hD.below, hD.fresh,
        fun _ h => absurd hpc (h none), hD.accepted, fun h => by simp [hpc] at h, hD.finished,
        fun _ _ => ?_, fun _ h => absurd ?_ h⟩
      · rcases hmem session j k hk with hk | ⟨-, rfl, rfl⟩
        · exact hD.entries session k hk
        · exact ⟨rfl, Nat.le_refl _, hlt⟩
      · rw [hline, List.getLast?_concat]
      · rw [hline]
        simp
    · have hold : ∀ session k, (j, k) ∈ t.line session → (j, k) ∈ s.line session :=
        fun session k hk => (hmem session j k hk).resolve_right fun h => hj h.1
      -- no other call of the session holds the lock
      have hsame : d.holds = true → t.line d.session = s.line d.session := by
        intro hdholds
        refine hother _ fun hs => hj ?_
        exact hI.holds_unique hd hget hs hdholds hholds
      refine ⟨hD.short, hD.created, hD.holder, fun session k hk => hD.entries _ k (hold _ k hk),
        hD.below, hD.fresh, fun h h' hk => hD.unsent h h' (hold _ _ hk), hD.accepted,
        fun h hk => hD.refused h (hold _ _ hk), hD.finished, fun h hk => ?_, fun h hk n hn => ?_⟩
      · rw [hsame h] at hk ⊢
        exact hD.last h hk
      · rw [hsame h] at hk ⊢
        exact hD.last_acked h hk n hn
  · rcases hmem session j k hk with hk | ⟨rfl, -⟩
    · exact hI.exists_call session j k hk
    · exact ⟨c, hget⟩
  · by_cases hs : session = c.session
    · subst hs
      rw [hline]
      exact (hI.blocks _).concat hnot ((hI.calls i c hget).last_acked hholds hnot)
    · rw [hother session hs]
      exact hI.blocks session
  · by_cases hs : session = c.session
    · subst hs
      have he' : e ∈ s.wire c.session ++ [⟨conn, i, c.next⟩] := by simpa [ht] using he
      rcases List.mem_append.1 he' with he' | he'
      · exact hI.chunk _ e he' d hd
      · obtain rfl := List.mem_singleton.1 he'
        obtain rfl := Option.mem_unique hget hd
        rfl
    · exact hI.chunk session e (by simpa [ht, hs] using he) d hd

theorem writeInv_send {conn : ℕ} (hI : s.WriteInv) (hget : s.calls[i]? = some c)
    (h : s.send i c conn = some t) : t.WriteInv := by
  unfold send at h
  rw [Option.ite_none_right_eq_some] at h
  obtain ⟨⟨hpc, hlt, -⟩, h⟩ := h
  cases h
  have hC := hI.calls i c hget
  have hholds : c.holds = true := by simp [WriteCall.holds, hpc]
  have hnot := hC.unsent (by simp [hpc]) (by simp [hpc])
  have hwaits : (s.setCall i { c with pc := .sent none }).WriteInv := by
    refine hI.rewrite_sent hget (Slots.getElem?_set hget _) rfl rfl (by simp [WriteCall.holds, hpc])
      (by simp [WriteCall.underWay, hpc]) (.inl rfl) (fun _ => rfl) (fun _ _ h => h)
      (fun _ _ h => h) rfl rfl rfl ?_
    exact ⟨hC.short, fun _ => hC.created (by simp [hpc]), fun _ => hC.holder hholds, hC.entries,
      hC.below, by simp, fun _ h => absurd rfl (h none), nofun, nofun, nofun,
      fun _ h => absurd h hnot, fun _ _ => hC.last_acked hholds hnot⟩
  exact writeInv_append hwaits ((Slots.getElem?_set hget _ i).trans (if_pos rfl)) rfl hnot hlt conn

end WriteSys

end BuilderPro
