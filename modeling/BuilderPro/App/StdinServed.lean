import BuilderPro.App.StdinSteps

/-!
# Served chunks

The daemon takes a request off the wire and writes its chunk, or not.  With the steps of a write,
every step in turn keeps the invariant (`writeInv_step`).
-/

namespace BuilderPro

namespace WriteSys

variable {s t : WriteSys} {i : ℕ} {c c' : WriteCall} {session : String}

theorem exists_line_takeOff {k : ℕ} {e : WireEntry} (he : (s.wire session)[k]? = some e) :
    ∃ pre post, s.line session = pre ++ (e.call, e.chunk) :: post
      ∧ (s.takeOff session k).line session = pre ++ post := by
  obtain ⟨hk, hek⟩ := List.getElem?_eq_some_iff.1 he
  have hwire : s.wire session = (s.wire session).take k ++ e :: (s.wire session).drop (k + 1) := by
    rw [← hek, ← List.drop_eq_getElem_cons hk, List.take_append_drop]
  refine ⟨s.accepted session ++ ((s.wire session).take k).map fun e => (e.call, e.chunk),
    ((s.wire session).drop (k + 1)).map fun e => (e.call, e.chunk), ?_, ?_⟩
  · conv_lhs => rw [line, hwire]
    simp
  · simp [line, takeOff, List.eraseIdx_eq_take_drop_succ]

theorem WriteInv.not_mem_line_takeOff {k : ℕ} (hI : s.WriteInv) {e : WireEntry}
    (he : (s.wire session)[k]? = some e) :
    (e.call, e.chunk) ∉ (s.takeOff session k).line session := by
  obtain ⟨pre, post, hline, hline'⟩ := exists_line_takeOff he
  have hnodup := (hI.blocks session).nodup
  rw [hline, List.nodup_middle, List.nodup_cons] at hnodup
  rw [hline']
  exact hnodup.1

/-- A request is taken off the line, before the daemon has accepted it. -/
theorem writeInv_takeOff {k : ℕ} (hI : s.WriteInv) {e : WireEntry}
    (he : (s.wire session)[k]? = some e) : (s.takeOff session k).WriteInv := by
  have hgone := hI.not_mem_line_takeOff he
  obtain ⟨pre, post, hline, hline'⟩ := exists_line_takeOff he
  rw [hline'] at hgone
  have hother : ∀ session', session' ≠ session →
      (s.takeOff session k).line session' = s.line session' := by
    intro session' hs
    simp [line, takeOff, hs]
  have hmemwire : ∀ session', ∀ e' ∈ (s.takeOff session k).wire session',
      e' ∈ s.wire session' := by
    intro session' e' he'
    by_cases hs : session' = session
    · subst hs
      exact List.mem_of_mem_eraseIdx (by simpa [takeOff] using he')
    · simpa [takeOff, hs] using he'
  have hblocks := hI.blocks session
  rw [hline] at hblocks
  have hsub : ∀ session' p, p ∈ (s.takeOff session k).line session' → p ∈ s.line session' := by
    intro session' p hp
    by_cases hs : session' = session
    · subst hs
      rw [hline'] at hp
      rw [hline]
      rcases List.mem_append.1 hp with hp | hp
      · exact List.mem_append_left _ hp
      · exact List.mem_append_right _ (List.mem_cons_of_mem _ hp)
    · exact hother session' hs ▸ hp
  have hlast := hblocks.getLast?_remove
  rw [← hline, ← hline'] at hlast
  refine ⟨fun j d hd => ?_, fun session' j n hn => hI.exists_call session' j n (hsub _ _ hn),
    fun session' => ?_, fun session' e' he' => hI.chunk session' e' (hmemwire _ _ he'), hI.holder,
    hI.lock, hI.map⟩
  · have hD := hI.calls j d hd
    refine ⟨hD.short, hD.created, hD.holder, fun session' n hn => hD.entries _ n (hsub _ _ hn),
      hD.below, hD.fresh, fun h h' hn => hD.unsent h h' (hsub _ _ hn), hD.accepted,
      fun h hn => hD.refused h (hsub _ _ hn), hD.finished, fun h hn => ?_, fun h hn m hm => ?_⟩
    · have hold := hD.last h (hsub _ _ hn)
      by_cases hs : d.session = session
      · subst hs
        rcases hlast with hlast | ⟨hlast, -⟩
        · rw [hlast, hold]
        · rw [hold] at hlast
          rw [Option.some.inj hlast, hline'] at hn
          exact absurd hn hgone
      · rw [hother _ hs]
        exact hold
    · by_cases hs : d.session = session
      · subst hs
        by_cases hin : (j, d.next) ∈ s.line d.session
        · have heq : (j, d.next) = (e.call, e.chunk) := by
            by_contra hne
            refine hn ?_
            rw [hline] at hin
            rw [hline']
            rcases List.mem_append.1 hin with hin | hin
            · exact List.mem_append_left _ hin
            · exact List.mem_append_right _ ((List.mem_cons.1 hin).resolve_left hne)
          have hold := hD.last h hin
          rcases hlast with hlast | ⟨-, hlast⟩
          · rw [hold] at hlast
            exact absurd (List.mem_of_getLast? hlast) hn
          · rw [(Prod.mk.inj heq).1]
            exact hlast m ((Prod.mk.inj heq).2 ▸ hm)
        · have hold := hD.last_acked h hin m hm
          rcases hlast with hlast | ⟨hlast, -⟩
          · rw [hlast, hold]
          · -- the call's last chunk on the line is acknowledged, and not on its way
            rw [hold] at hlast
            obtain ⟨hj, hm'⟩ := Prod.mk.inj (Option.some.inj hlast)
            have hchunk := hI.chunk _ e (List.mem_of_getElem? he) d (hj ▸ hd)
            omega
      · rw [hother _ hs] at hn ⊢
        exact hD.last_acked h hn m hm
  · by_cases hs : session' = session
    · subst hs
      rw [hline']
      refine hblocks.remove fun hnext => ?_
      have hmem : (e.call, e.chunk + 1) ∈ s.line session' := by
        rw [hline]
        exact List.mem_append_right _ (List.mem_cons_of_mem _ hnext)
      obtain ⟨d, hd⟩ := hI.exists_call _ _ _ hmem
      have hchunk := hI.chunk _ e (List.mem_of_getElem? he) d hd
      have hle := ((hI.calls _ d hd).entries _ _ hmem).2.1
      omega
    · rw [hother session' hs]
      exact hI.blocks session'

/-- A call, told of what became of the chunk it waits for. -/
theorem WriteInv.rewrite_notify (hI : s.WriteInv) {e : WireEntry} {ok : Bool}
    (hget : s.calls[e.call]? = some c) (hcalls : t.calls = s.notify e ok)
    (hline : ∀ session, t.line session = s.line session)
    (hwire : ∀ session, ∀ e ∈ t.wire session, e ∈ s.wire session)
    (haccepted : ∀ session, ∀ p ∈ s.accepted session, p ∈ t.accepted session)
    (hlocks : t.locks = s.locks) (hcreated : t.created = s.created) (hholder : t.holder = s.holder)
    (htrue : c.next = e.chunk → ok = true → (e.call, e.chunk) ∈ t.accepted c.session)
    (hfalse : c.next = e.chunk → ok = false → (e.call, e.chunk) ∉ s.line c.session) :
    t.WriteInv := by
  have hC := hI.calls _ c hget
  have hset := Slots.getElem?_modify hget fun c =>
    if c.pc = .sent none ∧ c.next = e.chunk then { c with pc := .sent (some ok) } else c
  rw [show s.calls.modify e.call _ = t.calls from hcalls.symm] at hset
  have hC' : t.CallInv e.call c :=
    hC.frame hline haccepted (hcreated ▸ Nat.le_refl _) (hholder ▸ hC.holder)
  by_cases htold : c.pc = .sent none ∧ c.next = e.chunk
  · rw [if_pos htold] at hset
    obtain ⟨hpc, hchunk⟩ := htold
    have hholds : c.holds = true := by simp [WriteCall.holds, hpc]
    refine hI.rewrite_sent hget hset rfl rfl (by simp [WriteCall.holds, hpc])
      (by simp [WriteCall.underWay, hpc]) (.inl rfl) hline hwire haccepted hlocks hcreated hholder
      ⟨hC'.short, fun _ => hC'.created (by simp [hpc]), fun _ => hC'.holder hholds, hC'.entries,
        hC'.below, by simp, fun _ h => absurd rfl (h (some ok)), fun h => ?_, fun h => ?_,
        (fun h => by cases h), fun _ => hC'.last hholds, fun _ => hC'.last_acked hholds⟩
    · rw [hchunk]
      exact htrue hchunk (by simpa using h)
    · rw [hline, hchunk]
      exact hfalse hchunk (by simpa using h)
  · rw [if_neg htold] at hset
    exact hI.rewrite_sent hget hset rfl rfl rfl rfl (.inl rfl) hline hwire haccepted hlocks hcreated
      hholder hC'

theorem writeInv_process {k : ℕ} {ok : Bool} (hI : s.WriteInv)
    (hturn : s.InTurn (.process session k ok)) (h : s.process session k ok = some t) :
    t.WriteInv := by
  unfold process at h
  split at h
  · cases h
  · rename_i e he
    rw [Option.ite_none_right_eq_some] at h
    obtain ⟨-, h⟩ := h
    cases h
    have hmem : (e.call, e.chunk) ∈ s.line session :=
      List.mem_append_right _ (List.mem_map.2 ⟨e, List.mem_of_getElem? he, rfl⟩)
    obtain ⟨c, hget⟩ := hI.exists_call session _ _ hmem
    have hsession : session = c.session := ((hI.calls _ c hget).entries session _ hmem).1
    subst hsession
    cases ok with
    | false =>
      -- it comes off the line, and then its call is told
      refine (writeInv_takeOff hI he).rewrite_notify hget rfl (fun _ => rfl) (fun _ _ h => h)
        (fun _ _ h => h) rfl rfl rfl (fun _ => nofun) fun _ _ => ?_
      exact hI.not_mem_line_takeOff he
    | true =>
      obtain rfl : k = 0 := hturn rfl
      obtain ⟨rest, hwire⟩ : ∃ rest, s.wire c.session = e :: rest := by
        rw [← List.head?_eq_getElem?] at he
        exact ⟨_, (List.eq_cons_of_mem_head? he)⟩
      refine hI.rewrite_notify hget rfl (fun session => ?_) (fun session e' he' => ?_)
        (fun session p hp => ?_) rfl rfl rfl (fun _ _ => by simp) (fun _ => nofun)
      · by_cases hs : session = c.session
        · subst hs
          simp [line, takeOff, hwire]
        · simp [line, takeOff, hs]
      · by_cases hs : session = c.session
        · subst hs
          rw [hwire]
          exact List.mem_cons_of_mem _ (by simpa [takeOff, hwire] using he')
        · simpa [takeOff, hs] using he'
      · by_cases hs : session = c.session
        · subst hs
          simp [hp]
        · simpa [hs] using hp

theorem writeInv_step {a : WriteAct} (hI : s.WriteInv) (hturn : s.InTurn a)
    (h : s.step a = some t) : t.WriteInv := by
  cases a with
  | invoke session data =>
    cases h
    exact writeInv_invoke hI hturn
  | lockFor i =>
    obtain ⟨c, hget, h⟩ := Option.bind_eq_some_iff.1 h
    exact writeInv_lockFor hI hget hturn h
  | acquire i =>
    obtain ⟨c, hget, h⟩ := Option.bind_eq_some_iff.1 h
    exact writeInv_acquire hI hget h
  | send i conn =>
    obtain ⟨c, hget, h⟩ := Option.bind_eq_some_iff.1 h
    exact writeInv_send hI hget h
  | process session k ok => exact writeInv_process hI hturn h
  | lose session k =>
    simp only [step] at h
    rw [Option.ite_none_right_eq_some] at h
    obtain ⟨hk, h⟩ := h
    cases h
    exact writeInv_takeOff hI (List.getElem?_eq_getElem hk)
  | ack i =>
    obtain ⟨c, hget, h⟩ := Option.bind_eq_some_iff.1 h
    rw [Option.ite_none_right_eq_some] at h
    obtain ⟨hpc, h⟩ := h
    cases h
    exact writeInv_ack hI hget hpc
  | fail i daemonError =>
    obtain ⟨c, hget, h⟩ := Option.bind_eq_some_iff.1 h
    split at h
    · rename_i hpc
      rw [Option.ite_none_right_eq_some] at h
      obtain ⟨-, h⟩ := h
      cases h
      exact writeInv_release hI hget (by simp [WriteCall.holds, hpc]) nofun nofun
    · cases h
  | finish i =>
    obtain ⟨c, hget, h⟩ := Option.bind_eq_some_iff.1 h
    rw [Option.ite_none_right_eq_some] at h
    obtain ⟨⟨hpc, hnext⟩, h⟩ := h
    cases h
    exact writeInv_release hI hget (by simp [WriteCall.holds, hpc])
      (fun _ => (hI.calls i c hget).unsent (by simp [hpc]) (by simp [hpc])) fun _ => hnext
  | evict session =>
    cases h
    refine ⟨fun i c hc => ?_, hI.exists_call, hI.blocks, hI.chunk, hI.holder, hI.lock,
      fun session' l hl => ?_⟩
    · exact (hI.calls i c hc).frame (fun _ => rfl) (fun _ _ h => h) (Nat.le_refl _)
        (hI.calls i c hc).holder
    · by_cases hs : session' = session
      · simp [hs] at hl
      · exact hI.map session' l (by simpa [hs] using hl)

theorem writeInv_init : init.WriteInv where
  calls i c hc := by simp [init] at hc
  exists_call session i k hk := by simp [line, init] at hk
  blocks _ := Blocks.nil
  chunk session e he := by simp [init] at he
  holder session l i h := by simp [init] at h
  lock i j c hc := by simp [init] at hc
  map session l h := by simp [init] at h

end WriteSys

end BuilderPro
