import BuilderPro.App.TerminalSteps

/-!
# What a terminal shows

Each xterm shows one Replay and the outputs of its channel, in every run in which no channel speaks
out of turn, and in no other (`showsLatest_iff`).
-/

namespace BuilderPro

namespace TerminalSys

variable {s t : TerminalSys} {i : ℕ} {a a' : AttachCall} {e e' : TerminalEntry}
  {session : String} {ev : TerminalEvent}

/-- A step that applies no message and fires no attach. -/
theorem ShowsLatest.quiet (hP : s.ShowsLatest) (hstale : t.stale = s.stale)
    (hcalls : ∀ (j : ℕ), ∀ b' ∈ t.calls[j]?, ∃ b ∈ s.calls[j]?, b'.session = b.session
      ∧ b'.generation = b.generation ∧ b'.messages = b.messages
      ∧ (b'.pending = true → b.pending = true))
    (hentries : ∀ session, ∀ e' ∈ t.entries session, e'.shows = none
      ∨ ∃ e ∈ s.entries session, e'.shows = e.shows ∧ e'.term = e.term) : t.ShowsLatest := by
  refine ⟨fun session e' he' j hj b' hb' => ?_, hstale.trans hP.stale,
    fun j k b' hb' c' hc' hpb hpc hs hg => ?_⟩
  · rcases hentries session e' he' with hnone | ⟨e, he, hshows, hterm⟩
    · rw [hnone] at hj
      cases hj
    · obtain ⟨b, hb, -, -, hmessages, -⟩ := hcalls j b' hb'
      rw [hmessages, hterm]
      exact hP.text session e he j (hshows ▸ hj) b hb
  · obtain ⟨b, hb, hbs, hbg, -, hbp⟩ := hcalls j b' hb'
    obtain ⟨c, hc, hcs, hcg, -, hcp⟩ := hcalls k c' hc'
    exact hP.inFlight j k b hb c hc (hbp hpb) (hcp hpc) (by rw [← hbs, ← hcs, hs])
      (by rw [← hbg, ← hcg, hg])

theorem calls_quiet (hcalls : t.calls = s.calls) : ∀ (j : ℕ), ∀ b' ∈ t.calls[j]?,
    ∃ b ∈ s.calls[j]?, b'.session = b.session ∧ b'.generation = b.generation
      ∧ b'.messages = b.messages ∧ (b'.pending = true → b.pending = true) :=
  fun _ b hb => ⟨b, hcalls ▸ hb, rfl, rfl, rfl, fun h => h⟩

theorem entries_quiet {o : Option TerminalEntry}
    (hentries : t.entries = Function.update s.entries session o)
    (ho : ∀ e' ∈ o, e'.shows = none
      ∨ ∃ e ∈ s.entries session, e'.shows = e.shows ∧ e'.term = e.term) :
    ∀ session', ∀ e' ∈ t.entries session', e'.shows = none
      ∨ ∃ e ∈ s.entries session', e'.shows = e.shows ∧ e'.term = e.term := by
  intro session' e' he'
  rw [hentries] at he'
  by_cases h : session' = session
  · subst h
    exact ho e' (by simpa using he')
  · exact .inr ⟨e', by simpa [h] using he', rfl, rfl⟩

theorem showsLatest_settle {err : Option String} (hP : s.ShowsLatest)
    (h : s.settle i err = some t) : t.ShowsLatest := by
  unfold settle at h
  split at h
  · cases h
  · rename_i a hget
    rw [Option.ite_none_right_eq_some] at h
    obtain ⟨hpending, h⟩ := h
    dsimp only at h
    have hset : ∀ (j : ℕ), ∀ b' ∈ (s.calls.set i { a with pending := false })[j]?,
        ∃ b ∈ s.calls[j]?, b'.session = b.session ∧ b'.generation = b.generation
          ∧ b'.messages = b.messages ∧ (b'.pending = true → b.pending = true) := by
      intro j b' hb'
      rw [Slots.getElem?_set hget] at hb'
      split_ifs at hb' with hj
      · obtain rfl := Option.mem_some_iff.1 hb'
        exact ⟨a, hj ▸ hget, rfl, rfl, rfl, fun h => by cases h⟩
      · exact ⟨b', hb', rfl, rfl, rfl, fun h => h⟩
    split at h
    · cases h
      exact hP.quiet rfl hset fun session e he => .inr ⟨e, he, rfl, rfl⟩
    · rename_i e hlive
      obtain ⟨he, -⟩ := mem_live.1 hlive
      cases h
      refine hP.quiet rfl hset (entries_quiet rfl fun e' he' => ?_)
      obtain rfl := Option.mem_some_iff.1 he'
      obtain ⟨-, -, hterm, hshows⟩ := @settleAttach_id e a.generation err
      exact .inr ⟨e, he, hshows, hterm⟩

/-- Firing an attach keeps what is shown, and one in flight a session and generation exactly if
none is in flight for an earlier terminal. -/
theorem showsLatest_attach_iff (hI : s.ManagerInv) (hP : s.ShowsLatest) :
    (s.attach session).ShowsLatest ↔ s.InTurn (.attach session) := by
  unfold attach
  split
  · rename_i hnone
    refine iff_of_true hP fun e he => ?_
    rw [hnone] at he
    cases he
  · rename_i e he
    have hE := hI.entry session e he
    split_ifs with hfires
    · have hlast : s.calls[s.calls.length]? = none := List.getElem?_eq_none (by omega)
      constructor
      · intro h e' he' _ a ha hs hp hg
        obtain rfl : e = e' := by simpa [he] using he'
        obtain ⟨j, hj⟩ := List.mem_iff_getElem?.1 ha
        -- the attach in flight would be the new one
        have hij := h.inFlight j s.calls.length a (Slots.mem_getElem?_concat.2 (.inl hj)) _
          (Slots.mem_getElem?_concat.2 (.inr ⟨rfl, rfl⟩)) hp rfl hs hg
        rw [hij, hlast] at hj
        cases hj
      · intro hturn
        have hnot : ∀ j : ℕ, ∀ b ∈ s.calls[j]?, b.pending = true → b.session = session →
            b.generation ≠ e.attachGeneration := by
          intro j b hb hp hs hg
          have hid := hturn e he hfires b (List.mem_of_getElem? hb) hs hp hg
          exact hE.not_pending_of_fires hfires hb hs hid hp hg
        refine ⟨fun session' e' he' j hj b hb => ?_, hP.stale,
          fun j k b hb c hc hpb hpc hs hg => ?_⟩
        · have hold : ∃ e₀ ∈ s.entries session', e'.shows = e₀.shows ∧ e'.term = e₀.term := by
            by_cases h : session' = session
            · subst h
              obtain rfl := Option.mem_some_iff.1 (by simpa [setEntry] using he')
              exact ⟨e, he, rfl, rfl⟩
            · exact ⟨e', by simpa [setEntry, h] using he', rfl, rfl⟩
          obtain ⟨e₀, he₀, hshows, hterm⟩ := hold
          rw [hterm]
          rcases Slots.mem_getElem?_concat.1 hb with hb | ⟨rfl, -⟩
          · exact hP.text session' e₀ he₀ j (hshows ▸ hj) b hb
          · obtain ⟨b', hb', -⟩ := (hI.entry session' e₀ he₀).shows _ (hshows ▸ hj)
            rw [hlast] at hb'
            cases hb'
        · rcases Slots.mem_getElem?_concat.1 hb with hb | ⟨rfl, rfl⟩
          · rcases Slots.mem_getElem?_concat.1 hc with hc | ⟨rfl, rfl⟩
            · exact hP.inFlight j k b hb c hc hpb hpc hs hg
            · exact absurd hg (hnot j b hb hpb hs)
          · rcases Slots.mem_getElem?_concat.1 hc with hc | ⟨rfl, rfl⟩
            · exact absurd hg.symm (hnot k c hc hpc hs.symm)
            · rfl
    · refine iff_of_true hP fun e' he' hfires' => absurd ?_ hfires
      obtain rfl : e = e' := by simpa [he] using he'
      exact hfires'

@[simp] theorem textOf_replay (evs : List TerminalEvent) (cols rows : ℕ) (content : List UInt8) :
    textOf (evs ++ [.replay cols rows content]) = some content := by
  simp [textOf]

@[simp] theorem textOf_output (evs : List TerminalEvent) (bytes : List UInt8) :
    textOf (evs ++ [.output bytes]) = (textOf evs).map (· ++ bytes) := by
  simp [textOf]

/-- An attach whose channel delivers a message keeps what the others' have delivered, and the
attaches in flight. -/
theorem inFlight_message (hP : s.ShowsLatest) (hget : s.calls[i]? = some a)
    (hcalls : t.calls = s.calls.set i { a with messages := a.messages ++ [ev] }) :
    ∀ (j k : ℕ), ∀ b ∈ t.calls[j]?, ∀ c ∈ t.calls[k]?, b.pending = true → c.pending = true →
      b.session = c.session → b.generation = c.generation → j = k := by
  have hold : ∀ (j : ℕ), ∀ b' ∈ t.calls[j]?, ∃ b ∈ s.calls[j]?, b'.session = b.session
      ∧ b'.generation = b.generation ∧ b'.pending = b.pending := by
    intro j b' hb'
    rw [hcalls, Slots.getElem?_set hget] at hb'
    split_ifs at hb' with hj
    · obtain rfl := Option.mem_some_iff.1 hb'
      exact ⟨a, hj ▸ hget, rfl, rfl, rfl⟩
    · exact ⟨b', hb', rfl, rfl, rfl⟩
  intro j k b' hb' c' hc' hpb hpc hs hg
  obtain ⟨b, hb, hbs, hbg, hbp⟩ := hold j b' hb'
  obtain ⟨c, hc, hcs, hcg, hcp⟩ := hold k c' hc'
  exact hP.inFlight j k b hb c hc (hbp ▸ hpb) (hcp ▸ hpc) (by rw [← hbs, ← hcs, hs])
    (by rw [← hbg, ← hcg, hg])

/-- A terminal of another session shows what it showed. -/
theorem text_message_ne (hI : s.ManagerInv) (hP : s.ShowsLatest) (hget : s.calls[i]? = some a)
    (hcalls : t.calls = s.calls.set i { a with messages := a.messages ++ [ev] })
    (he : s.entries session = some e) (hne : session ≠ a.session) :
    ∀ j ∈ e.shows, ∀ b ∈ t.calls[j]?, textOf b.messages = some e.term.written := by
  intro j hj b hb
  obtain ⟨c, hc, hcs⟩ := (hI.entry session e he).shows j hj
  have hji : j ≠ i := by
    rintro rfl
    obtain rfl : a = c := by simpa [hget] using hc
    exact hne hcs.symm
  rw [hcalls, Slots.getElem?_set hget, if_neg hji] at hb
  exact hP.text session e he j hj b hb

theorem showsLatest_message_iff (hI : s.ManagerInv) (hP : s.ShowsLatest)
    (h : s.message i ev = some t) : t.ShowsLatest ↔ s.InTurn (.message i ev) := by
  unfold message at h
  split at h
  · cases h
  · rename_i a hget
    dsimp only at h
    split at h
    · rename_i hnone
      cases h
      refine iff_of_true ⟨fun session e he => ?_, hP.stale, inFlight_message hP hget rfl⟩ ?_
      · refine text_message_ne hI hP hget rfl he ?_
        rintro rfl
        rw [hnone] at he
        cases he
      · intro b hb e he
        obtain rfl : a = b := by simpa [hget] using hb
        rw [hnone] at he
        cases he
    · rename_i e he
      cases h
      constructor
      · intro h b hb e' he'
        obtain rfl : a = b := by simpa [hget] using hb
        obtain rfl : e = e' := by simpa [he] using he'
        refine ⟨?_, ?_⟩
        · by_contra hcurrent
          have hstale := h.stale
          rw [if_neg hcurrent] at hstale
          simp at hstale
        · cases ev with
          | replay => trivial
          | output bytes =>
            intro hbytes j hj
            by_contra hji
            obtain ⟨b, hb, -⟩ := (hI.entry a.session e he).shows j hj
            have hold := hP.text a.session e he j hj b hb
            have hnew := h.text a.session (e.writeOutput bytes) (by simp [setEntry,
              TerminalEntry.handle]) j hj b (by
                rw [calls_setEntry, Slots.getElem?_set hget, if_neg hji]
                exact hb)
            rw [hold] at hnew
            simp [TerminalEntry.writeOutput, Terminal.write, hbytes] at hnew
      · intro hturn
        obtain ⟨hcurrent, hshows⟩ := hturn a hget e he
        refine ⟨fun session e' he' => ?_, ?_, inFlight_message hP hget rfl⟩
        · by_cases hsession : session = a.session
          · subst hsession
            obtain rfl := Option.mem_some_iff.1 (by simpa [setEntry] using he')
            intro j hj b hb
            rw [calls_setEntry, Slots.getElem?_set hget] at hb
            cases ev with
            | replay cols rows content =>
              obtain rfl : i = j := by simpa [TerminalEntry.handle] using hj
              rw [if_pos rfl] at hb
              obtain rfl := Option.mem_some_iff.1 hb
              simp [TerminalEntry.handle, TerminalEntry.applyReplay, Terminal.write,
                Terminal.resize, Terminal.reset]
            | output bytes =>
              by_cases hji : j = i
              · rw [if_pos hji] at hb
                obtain rfl := Option.mem_some_iff.1 hb
                rw [textOf_output, hP.text a.session e he j hj a (hji ▸ hget)]
                rfl
              · rw [if_neg hji] at hb
                obtain rfl : bytes = [] := by
                  by_contra hbytes
                  exact hji (hshows hbytes j hj)
                rw [hP.text a.session e he j hj b hb]
                simp [TerminalEntry.handle, TerminalEntry.writeOutput, Terminal.write]
          · exact text_message_ne hI hP hget rfl (by simpa [setEntry, hsession] using he')
              hsession
        · simp only [if_pos hcurrent]
          exact hP.stale

theorem showsLatest_step_iff {act : TerminalAct} (hI : s.ManagerInv) (hP : s.ShowsLatest)
    (h : s.step act = some t) : t.ShowsLatest ↔ s.InTurn act := by
  cases act with
  | ensure session size =>
    cases h
    refine iff_of_true ?_ trivial
    unfold ensure
    split
    · exact hP
    · refine hP.quiet rfl (calls_quiet rfl) (entries_quiet rfl fun e' he' => ?_)
      obtain rfl := Option.mem_some_iff.1 he'
      exact .inl rfl
  | attach session =>
    cases h
    exact showsLatest_attach_iff hI hP
  | resetAttachment session =>
    cases h
    refine iff_of_true (hP.quiet rfl (calls_quiet rfl) (entries_quiet rfl fun e' he' => ?_)) trivial
    obtain ⟨e, he, rfl⟩ := Option.map_eq_some_iff.1 he'
    exact .inr ⟨e, he, rfl, rfl⟩
  | resetAllAttachments =>
    cases h
    refine iff_of_true (hP.quiet rfl (calls_quiet rfl) fun session e' he' => ?_) trivial
    obtain ⟨e, he, rfl⟩ := Option.map_eq_some_iff.1 he'
    exact .inr ⟨e, he, rfl, rfl⟩
  | dispose session =>
    cases h
    exact iff_of_true (hP.quiet rfl (calls_quiet rfl) (entries_quiet rfl fun e' he' => by cases he'))
      trivial
  | resolve i => exact iff_of_true (showsLatest_settle hP h) trivial
  | reject i err => exact iff_of_true (showsLatest_settle hP h) trivial
  | message i ev => exact showsLatest_message_iff hI hP h

theorem managerInv_init : init.ManagerInv :=
  ⟨fun _ _ he => (by cases he), fun _ ha => (by cases ha)⟩

theorem showsLatest_init : init.ShowsLatest :=
  ⟨fun _ _ he => (by cases he), rfl, fun _ _ _ ha => (by cases ha)⟩

/-- For any calls of the manager, settlements and messages of the channels in any order: the runs
in which every terminal shows one Replay and the outputs of its channel, nothing is written for a
superseded or invalidated attach, and one attach a session and generation is in flight, are those
whose messages and attaches all come in turn. -/
theorem showsLatest_iff (as : List TerminalAct) :
    Runs.Throughout step ShowsLatest init as ↔ Runs.Along step InTurn init as :=
  Runs.throughout_iff (fun _ _ _ hI h => managerInv_step hI h)
    (fun _ _ _ hI hP h => showsLatest_step_iff hI hP h) managerInv_init showsLatest_init as

/-- A terminal is attached again after a reconnect, and an output of the first channel comes late. -/
def lateOutput : List TerminalAct :=
  [.ensure "s" none, .attach "s", .message 0 (.replay 80 24 [1]), .resolve 0,
    .resetAllAttachments, .attach "s", .message 1 (.replay 80 24 [2]), .resolve 1,
    .message 0 (.output [3])]

theorem late_output_written : ∃ t e, Runs.run step init lateOutput = some t
    ∧ t.entries "s" = some e ∧ e.shows = some 1 ∧ e.attach = .attached
    ∧ t.calls[1]?.map AttachCall.messages = some [.replay 80 24 [2]]
    ∧ e.term.written = [2, 3] ∧ t.stale = [(0, .output [3])] ∧ ¬t.ShowsLatest := by
  refine ⟨_, _, rfl, rfl, rfl, rfl, rfl, rfl, rfl, fun h => ?_⟩
  have hstale := h.stale
  revert hstale
  decide +kernel

end TerminalSys

end BuilderPro
