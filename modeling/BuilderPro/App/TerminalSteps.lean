import BuilderPro.App.Terminals

/-!
# Terminals and their attaches

The attaches of an entry are of its generation or an earlier one, and the one of its generation that
is in flight is the one it waits for (`TerminalSys.ManagerInv`), whatever is delivered.
-/

namespace BuilderPro

namespace TerminalSys

variable (s : TerminalSys)

/-- What an entry and the attaches of its session have to do with each other: they are of its
generation or an earlier one, and one of its generation that is in flight is the one it waits for. -/
structure EntryInv (session : String) (e : TerminalEntry) : Prop where
  created : e.id < s.created session
  generation : ∀ a ∈ s.calls, a.session = session → a.entry = e.id →
    a.generation ≤ e.attachGeneration
  inFlight : ∀ (i : ℕ), ∀ a ∈ s.calls[i]?, a.session = session → a.entry = e.id →
    a.pending = true → a.generation = e.attachGeneration →
      e.attach = .attaching ∧ e.attachInFlight = some i
  shows : ∀ i ∈ e.shows, ∃ a ∈ s.calls[i]?, a.session = session

structure ManagerInv : Prop where
  entry : ∀ session, ∀ e ∈ s.entries session, s.EntryInv session e
  call : ∀ a ∈ s.calls, a.entry < s.created a.session

variable {s} {t : TerminalSys} {i : ℕ} {a a' : AttachCall} {e e' : TerminalEntry}
  {session : String} {ev : TerminalEvent}

@[simp] theorem calls_setEntry (e : Option TerminalEntry) :
    (s.setEntry session e).calls = s.calls := rfl

@[simp] theorem created_setEntry (e : Option TerminalEntry) :
    (s.setEntry session e).created = s.created := rfl

theorem mem_live : e ∈ s.live a ↔ s.entries a.session = some e ∧ e.id = a.entry := by
  simp [live, Option.filter_eq_some_iff]

/-- What a step leaves of the attaches there were. -/
structure CallsKept (s t : TerminalSys) : Prop where
  created : t.created = s.created
  back : ∀ (j : ℕ), ∀ b' ∈ t.calls[j]?, ∃ b ∈ s.calls[j]?, b'.session = b.session
    ∧ b'.entry = b.entry ∧ b'.generation = b.generation ∧ (b'.pending = true → b.pending = true)
  forth : ∀ (j : ℕ), ∀ b ∈ s.calls[j]?, ∃ b' ∈ t.calls[j]?, b'.session = b.session

theorem CallsKept.refl (hcalls : t.calls = s.calls) (hcreated : t.created = s.created) :
    CallsKept s t where
  created := hcreated
  back _ b hb := ⟨b, hcalls ▸ hb, rfl, rfl, rfl, fun h => h⟩
  forth _ b hb := ⟨b, hcalls ▸ hb, rfl⟩

/-- One attach is rewritten. -/
theorem CallsKept.set (hget : s.calls[i]? = some a) (hcalls : t.calls = s.calls.set i a')
    (hcreated : t.created = s.created) (hsession : a'.session = a.session)
    (hentry : a'.entry = a.entry) (hgeneration : a'.generation = a.generation)
    (hpending : a'.pending = true → a.pending = true) : CallsKept s t := by
  refine ⟨hcreated, fun j b' hb' => ?_, fun j b hb => ?_⟩
  · rw [hcalls, Slots.getElem?_set hget] at hb'
    by_cases h : j = i
    · obtain rfl : a' = b' := by simpa [h] using hb'
      exact ⟨a, h ▸ hget, hsession, hentry, hgeneration, hpending⟩
    · rw [if_neg h] at hb'
      exact ⟨b', hb', rfl, rfl, rfl, fun h => h⟩
  · rw [hcalls, Slots.getElem?_set hget]
    by_cases h : j = i
    · subst h
      obtain rfl : a = b := by simpa [hget] using hb
      exact ⟨a', by simp, hsession⟩
    · exact ⟨b, by rw [if_neg h]; exact hb, rfl⟩

/-- An entry keeps its invariant with its generation, what it waits for and what it shows. -/
theorem EntryInv.kept (hI : s.EntryInv session e) (hk : CallsKept s t) (hid : e'.id = e.id)
    (hgeneration : e.attachGeneration ≤ e'.attachGeneration)
    (hwaits : e'.attachGeneration = e.attachGeneration → ∀ (j : ℕ), ∀ b ∈ t.calls[j]?,
      b.session = session → b.entry = e.id → b.pending = true →
      b.generation = e.attachGeneration →
      e.attach = .attaching → e.attachInFlight = some j →
      e'.attach = .attaching ∧ e'.attachInFlight = some j)
    (hshows : ∀ i ∈ e'.shows, i ∈ e.shows ∨ ∃ a ∈ t.calls[i]?, a.session = session) :
    t.EntryInv session e' := by
  refine ⟨?_, fun b' hb' hs he => ?_, fun j b' hb' hs he hp hg => ?_, fun j hj => ?_⟩
  · rw [hk.created, hid]
    exact hI.created
  · obtain ⟨j, hj⟩ := List.mem_iff_getElem?.1 hb'
    obtain ⟨b, hb, hbs, hbe, hbg, -⟩ := hk.back j b' hj
    have hle := hI.generation b (List.mem_of_getElem? hb) (hbs ▸ hs) (hbe ▸ hid ▸ he)
    omega
  · obtain ⟨b, hb, hbs, hbe, hbg, hbp⟩ := hk.back j b' hb'
    have hbe' : b.entry = e.id := hbe ▸ hid ▸ he
    have hle := hI.generation b (List.mem_of_getElem? hb) (hbs ▸ hs) hbe'
    have heq : e'.attachGeneration = e.attachGeneration := by omega
    obtain ⟨hattaching, hflight⟩ := hI.inFlight j b hb (hbs ▸ hs) hbe' (hbp hp) (by omega)
    exact hwaits heq j b' hb' hs (hid ▸ he) hp (by omega) hattaching hflight
  · rcases hshows j hj with h | h
    · obtain ⟨b, hb, hs⟩ := hI.shows j h
      obtain ⟨b', hb', hs'⟩ := hk.forth j b hb
      exact ⟨b', hb', hs'.trans hs⟩
    · exact h

/-- An entry that no step touches. -/
theorem EntryInv.frame (hI : s.EntryInv session e) (hk : CallsKept s t) :
    t.EntryInv session e :=
  hI.kept hk rfl (Nat.le_refl _) (fun _ _ _ _ _ _ _ _ h h' => ⟨h, h'⟩) fun _ h => .inl h

theorem EntryInv.invalidateAttach (hI : s.EntryInv session e) (hk : CallsKept s t) :
    t.EntryInv session e.invalidateAttach := by
  refine hI.kept hk rfl (Nat.le_succ _) (fun h => ?_) fun _ h => .inl h
  exact absurd h (Nat.succ_ne_self _)

theorem call_kept (hI : s.ManagerInv) (hk : CallsKept s t) :
    ∀ a ∈ t.calls, a.entry < t.created a.session := by
  intro b' hb'
  obtain ⟨j, hj⟩ := List.mem_iff_getElem?.1 hb'
  obtain ⟨b, hb, hbs, hbe, -⟩ := hk.back j b' hj
  rw [hk.created, hbs, hbe]
  exact hI.call b (List.mem_of_getElem? hb)

/-- A step that changes the entry of one session. -/
theorem ManagerInv.setEntry (hI : s.ManagerInv) (hk : CallsKept s t) {o : Option TerminalEntry}
    (hentries : t.entries = Function.update s.entries session o)
    (ho : ∀ e ∈ o, t.EntryInv session e) : t.ManagerInv := by
  refine ⟨fun session' e he => ?_, call_kept hI hk⟩
  rw [hentries] at he
  by_cases h : session' = session
  · subst h
    exact ho e (by simpa using he)
  · exact (hI.entry session' e (by simpa [h] using he)).frame hk

theorem managerInv_ensure (hI : s.ManagerInv) (size : Option (ℕ × ℕ)) :
    (s.ensure session size).ManagerInv := by
  unfold ensure
  split
  · exact hI
  · have hcreated : ∀ session', s.created session'
        ≤ Function.update s.created session (s.created session + 1) session' := by
      intro session'
      by_cases h : session' = session
      · simp [h]
      · simp [h]
    refine ⟨fun session' e he => ?_,
      fun a ha => Nat.lt_of_lt_of_le (hI.call a ha) (hcreated _)⟩
    by_cases h : session' = session
    · subst h
      simp only [setEntry, Function.update_self, Option.mem_def, Option.some.injEq] at he
      subst he
      have hnone : ∀ a ∈ s.calls, a.session = session' → a.entry ≠ s.created session' := by
        rintro a ha rfl
        exact Nat.ne_of_lt (hI.call a ha)
      refine ⟨by simp, fun a ha hs he => absurd he (hnone a ha hs), ?_, by simp⟩
      exact fun j a ha hs he => absurd he (hnone a (List.mem_of_getElem? ha) hs)
    · have hE := hI.entry session' e (by simpa [setEntry, h] using he)
      exact ⟨Nat.lt_of_lt_of_le hE.created (hcreated _), hE.generation, hE.inFlight, hE.shows⟩

/-- An entry that fires has no attach of its generation in flight. -/
theorem EntryInv.not_pending_of_fires (hI : s.EntryInv session e) (hfires : e.fires = true)
    (ha : a ∈ s.calls[i]?) (hs : a.session = session) (he : a.entry = e.id)
    (hp : a.pending = true) : a.generation ≠ e.attachGeneration := by
  intro hg
  obtain ⟨hattaching, hflight⟩ := hI.inFlight i a ha hs he hp hg
  simp [TerminalEntry.fires, hattaching, hflight] at hfires

theorem managerInv_attach (hI : s.ManagerInv) : (s.attach session).ManagerInv := by
  unfold attach
  split
  · exact hI
  · rename_i e he
    split_ifs with hfires
    · have hE := hI.entry session e he
      refine ⟨fun session' e' he' => ?_, fun a ha => ?_⟩
      · by_cases h : session' = session
        · subst h
          obtain rfl := Option.mem_some_iff.1 (by simpa [setEntry] using he')
          refine ⟨hE.created, fun a ha hs hid => ?_, fun j a ha hs hid hp hg => ?_,
            fun j hj => ?_⟩
          · rcases List.mem_append.1 ha with ha | ha
            · exact hE.generation a ha hs hid
            · obtain rfl := List.mem_singleton.1 ha
              exact Nat.le_refl _
          · rcases Slots.mem_getElem?_concat.1 ha with ha | ⟨rfl, rfl⟩
            · exact absurd hg (hE.not_pending_of_fires hfires ha hs hid hp)
            · exact ⟨rfl, rfl⟩
          · obtain ⟨a, ha, hs⟩ := hE.shows j hj
            exact ⟨a, Slots.mem_getElem?_concat.2 (.inl ha), hs⟩
        · have hE' := hI.entry session' e' (by simpa [setEntry, h] using he')
          refine ⟨hE'.created, fun a ha hs hid => ?_, fun j a ha hs hid hp hg => ?_,
            fun j hj => ?_⟩
          · rcases List.mem_append.1 ha with ha | ha
            · exact hE'.generation a ha hs hid
            · obtain rfl := List.mem_singleton.1 ha
              exact absurd hs.symm h
          · rcases Slots.mem_getElem?_concat.1 ha with ha | ⟨rfl, rfl⟩
            · exact hE'.inFlight j a ha hs hid hp hg
            · exact absurd hs.symm h
          · obtain ⟨a, ha, hs⟩ := hE'.shows j hj
            exact ⟨a, Slots.mem_getElem?_concat.2 (.inl ha), hs⟩
      · rcases List.mem_append.1 ha with ha | ha
        · exact hI.call a ha
        · obtain rfl := List.mem_singleton.1 ha
          exact hE.created
    · exact hI

theorem settleAttach_id (generation : ℕ) (err : Option String) :
    (e.settleAttach generation err).id = e.id
      ∧ (e.settleAttach generation err).attachGeneration = e.attachGeneration
      ∧ (e.settleAttach generation err).term = e.term
      ∧ (e.settleAttach generation err).shows = e.shows := by
  unfold TerminalEntry.settleAttach
  split <;> exact ⟨rfl, rfl, rfl, rfl⟩

theorem managerInv_settle {err : Option String} (hI : s.ManagerInv)
    (h : s.settle i err = some t) : t.ManagerInv := by
  unfold settle at h
  split at h
  · cases h
  · rename_i a hget
    rw [Option.ite_none_right_eq_some] at h
    obtain ⟨hpending, h⟩ := h
    dsimp only at h
    have hk : ∀ u : TerminalSys, u.calls = s.calls.set i { a with pending := false } →
        u.created = s.created → CallsKept s u :=
      fun u hcalls hcreated => .set hget hcalls hcreated rfl rfl rfl fun h => by cases h
    split at h
    · cases h
      have hk' := hk { s with calls := s.calls.set i { a with pending := false } } rfl rfl
      exact ⟨fun session e he => (hI.entry session e he).frame hk', call_kept hI hk'⟩
    · rename_i e hlive
      obtain ⟨he, hid⟩ := mem_live.1 hlive
      have hE := hI.entry a.session e he
      cases h
      refine hI.setEntry (hk _ rfl rfl) rfl fun e' he' => ?_
      obtain rfl := Option.mem_some_iff.1 he'
      obtain ⟨hid', hgen', -, hshows'⟩ := @settleAttach_id e a.generation err
      refine hE.kept (hk _ rfl rfl) hid' (by omega) (fun _ j b hb hs hbe hbp hbg hatt hfl => ?_)
        fun k hk => .inl (hshows' ▸ hk)
      -- the attach that is settled is the one the entry waits for, if it is of its generation
      have hgen : e.attachGeneration ≠ a.generation := by
        intro hgen
        obtain ⟨-, hflight⟩ := hE.inFlight i a hget rfl hid.symm hpending hgen.symm
        obtain rfl : i = j := by simpa [hflight] using hfl
        obtain rfl : { a with pending := false } = b := by
          simpa [(List.getElem?_eq_some_iff.1 hget).1] using hb
        cases hbp
      unfold TerminalEntry.settleAttach
      rw [if_neg fun h => hgen h.1]
      exact ⟨hatt, hfl⟩

theorem handle_kept (i : ℕ) (ev : TerminalEvent) :
    (e.handle i ev).id = e.id ∧ (e.handle i ev).attachGeneration = e.attachGeneration
      ∧ (e.handle i ev).attach = e.attach
      ∧ (e.handle i ev).attachInFlight = e.attachInFlight := by
  cases ev <;> exact ⟨rfl, rfl, rfl, rfl⟩

theorem managerInv_message (hI : s.ManagerInv) (h : s.message i ev = some t) :
    t.ManagerInv := by
  unfold message at h
  split at h
  · cases h
  · rename_i a hget
    dsimp only at h
    have hk : ∀ u : TerminalSys,
        u.calls = s.calls.set i { a with messages := a.messages ++ [ev] } →
        u.created = s.created → CallsKept s u :=
      fun u hcalls hcreated => .set hget hcalls hcreated rfl rfl rfl fun h => h
    split at h
    · cases h
      have hk' := hk { s with calls := s.calls.set i { a with messages := a.messages ++ [ev] } }
        rfl rfl
      exact ⟨fun session e he => (hI.entry session e he).frame hk', call_kept hI hk'⟩
    · rename_i e he
      cases h
      refine hI.setEntry (hk _ rfl rfl) rfl fun e' he' => ?_
      obtain rfl := Option.mem_some_iff.1 he'
      obtain ⟨hid, hgen, hatt, hfl⟩ := @handle_kept e i ev
      refine (hI.entry a.session e he).kept (hk _ rfl rfl) hid (by omega)
        (fun _ _ _ _ _ _ _ _ h h' => ⟨hatt.trans h, hfl.trans h'⟩) fun k hk => ?_
      cases ev with
      | replay =>
        obtain rfl : i = k := by simpa [TerminalEntry.handle] using hk
        exact .inr ⟨_, List.getElem?_set_self (List.getElem?_eq_some_iff.1 hget).1, rfl⟩
      | output => exact .inl hk

theorem managerInv_step {act : TerminalAct} (hI : s.ManagerInv) (h : s.step act = some t) :
    t.ManagerInv := by
  cases act with
  | ensure session size =>
    cases h
    exact managerInv_ensure hI size
  | attach session =>
    cases h
    exact managerInv_attach hI
  | resetAttachment session =>
    cases h
    refine hI.setEntry (.refl rfl rfl) rfl fun e' he' => ?_
    obtain ⟨e, he, rfl⟩ := Option.map_eq_some_iff.1 he'
    exact (hI.entry session e he).invalidateAttach (.refl rfl rfl)
  | resetAllAttachments =>
    cases h
    refine ⟨fun session e' he' => ?_, hI.call⟩
    obtain ⟨e, he, rfl⟩ := Option.map_eq_some_iff.1 he'
    exact (hI.entry session e he).invalidateAttach (.refl rfl rfl)
  | dispose session =>
    cases h
    exact hI.setEntry (.refl rfl rfl) rfl fun e' he' => by cases he'
  | resolve i => exact managerInv_settle hI h
  | reject i err => exact managerInv_settle hI h
  | message i ev => exact managerInv_message hI h

end TerminalSys

end BuilderPro
