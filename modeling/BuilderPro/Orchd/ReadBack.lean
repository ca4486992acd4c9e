import BuilderPro.Orchd.FileCalls

/-!
# Reading back what was written

What the verbs have accepted is read back throughout a run exactly when no content is over the cap
and none is staged over another's file (`readable_throughout_iff`).
-/

namespace BuilderPro

open Results

/-- The daemon, and the text last accepted for each row. -/
structure FileRun where
  o : Orchd
  accepted : MdRow → Option String

namespace FileRun

def start (o : Orchd) : FileRun := ⟨o, fun _ => none⟩

/-- A successful call. -/
def step (host : Host) (st : FileRun) (call : FileCall) : Option FileRun :=
  match call.run host st.o with
  | .ok (o', f) => some ⟨o', Function.update st.accepted f (call.content st.o)⟩
  | .error _ => none

/-- The rows the calls have been on have distinct paths. -/
def DistinctPaths (st : FileRun) : Prop :=
  ∀ f g, (st.accepted f).isSome → (st.accepted g).isSome →
    st.o.db.pathOf f = st.o.db.pathOf g → f = g

/-- Every row reads back what was last accepted for it. -/
def Readable (host : Host) (st : FileRun) : Prop :=
  ∀ f c, st.accepted f = some c → st.o.ReadsBack host f c

/-- A call accepts no text over the cap, and stages none over another row's file. -/
def Fits (st : FileRun) (call : FileCall) : Prop :=
  (∀ c, call.content st.o = some c → c.utf8ByteSize ≤ Files.maxMdReadBytes) ∧
    ∀ f p, call.writesTo st.o = some (f, p) → ∀ g ≠ f, (st.accepted g).isSome →
      st.o.db.pathOf g ≠ some p.tmpPathFor

variable {host : Host} {st t : FileRun} {call : FileCall}

theorem step_accepts (hkeys : st.o.db.FileKeys) (h : step host st call = some t) : ∃ f p c,
    call.content st.o = some c ∧ call.Accepts host st.o t.o f p c ∧ t.accepted f = some c ∧
      ∀ g ≠ f, t.accepted g = st.accepted g := by
  unfold step at h
  split at h
  · rename_i o' f hrun
    obtain ⟨p, c, hc, hacc⟩ := FileCall.run_accepts hkeys hrun
    obtain rfl := Option.some.inj h
    exact ⟨f, p, c, hc, hacc, (Function.update_self _ _ _).trans hc,
      fun g hg => Function.update_of_ne hg _ _⟩
  · simp at h

/-- A call keeps what is accepted readable exactly when it fits. -/
theorem readable_step_iff (hkeys : st.o.db.FileKeys) (hst : st.Readable host)
    (h : step host st call = some t) (hdist : t.DistinctPaths) :
    t.Readable host ↔ st.Fits call := by
  obtain ⟨f, p, c, hc, hacc, hself, hother⟩ := step_accepts hkeys h
  have hf : t.o.db.entry f = some (p, host.sha256Hex c) := by rw [hacc.entry, if_pos rfl]
  -- a row accepted before is at the path it had, and that is not the path of this one
  have hrow : ∀ g ≠ f, ∀ d, st.accepted g = some d → ∃ q ≠ p,
      st.o.db.pathOf g = some q ∧ t.o.db.entry g = some (q, host.sha256Hex d) ∧
        st.o.files q = .file d ∧ d.utf8ByteSize ≤ Files.maxMdReadBytes := by
    intro g hg d hd
    obtain ⟨q, hq, hfile, hsize⟩ := (Orchd.readsBack_iff hkeys).1 (hst g d hd)
    have hentry : t.o.db.entry g = some (q, host.sha256Hex d) := by
      rw [hacc.entry, if_neg hg, hq]
    refine ⟨q, ?_, ?_, hentry, hfile, hsize⟩
    · rintro rfl
      refine hg (hdist g f ?_ ?_ ?_)
      · rw [hother g hg, hd]
        rfl
      · rw [hself]
        rfl
      · rw [Store.pathOf, Store.pathOf, hentry, hf]
        rfl
    · rw [Store.pathOf, hq]
      rfl
  constructor
  · intro ht
    refine ⟨fun c' hc' => ?_, fun f' p' hw g hg hsome hpath => ?_⟩
    · have hcc : t.accepted f = some c' := by rw [hself, ← hc, hc']
      obtain ⟨-, -, -, hsize⟩ := (Orchd.readsBack_iff hacc.keys).1 (ht f c' hcc)
      exact hsize
    · obtain ⟨rfl, rfl⟩ := Prod.mk.inj (hacc.target _ hw)
      obtain ⟨d, hd⟩ := Option.isSome_iff_exists.1 hsome
      obtain ⟨q, hqp, hqpath, hqentry, -⟩ := hrow g hg d hd
      have htd : t.accepted g = some d := by rw [hother g hg, hd]
      obtain ⟨q', hq', hfile, -⟩ := (Orchd.readsBack_iff hacc.keys).1 (ht g d htd)
      rw [hqentry, Option.some.injEq, Prod.mk.injEq] at hq'
      obtain ⟨rfl, -⟩ := hq'
      rw [hqpath, Option.some.injEq] at hpath
      have hmissing := hacc.staged q hqp (by rw [hw]; rfl) hpath
      rw [hfile] at hmissing
      simp at hmissing
  · rintro ⟨hsize, hfree⟩ g d hd
    rw [Orchd.readsBack_iff hacc.keys]
    by_cases hg : g = f
    · subst hg
      rw [hself, Option.some.injEq] at hd
      subst hd
      exact ⟨p, hf, hacc.file, hsize c hc⟩
    · rw [hother g hg] at hd
      obtain ⟨q, hqp, hqpath, hqentry, hfile, hle⟩ := hrow g hg d hd
      refine ⟨q, hqentry, ?_, hle⟩
      rw [← hfile]
      refine hacc.rest q hqp fun hsome hstaged => ?_
      obtain ⟨w, hw⟩ := Option.isSome_iff_exists.1 hsome
      obtain rfl := hacc.target w hw
      refine hfree f p hw g hg ?_ ?_
      · rw [hd]
        rfl
      · rw [hqpath, hstaged]

/-- Whatever calls succeed, on rows whose paths are distinct: every row reads back the text last
accepted for it, as `Ok`, and the exports have it, throughout exactly the runs in which no text
accepted is over the cap of the readers and none is staged at the path of another such row. -/
theorem readable_throughout_iff {o : Orchd} (hkeys : o.db.FileKeys) {calls : List FileCall}
    (hdist : Runs.Throughout (step host) DistinctPaths (start o) calls) :
    Runs.Throughout (step host) (Readable host) (start o) calls ↔
      Runs.Along (step host) Fits (start o) calls := by
  refine Runs.throughout_iff_of_along (I := fun st => st.o.db.FileKeys)
    (Q := fun st call => ∀ t, step host st call = some t → t.DistinctPaths)
    ?_ ?_ hkeys ?_ hdist.along
  · intro st call t hkeys _ _ ht
    obtain ⟨f, p, c, -, hacc, -⟩ := step_accepts hkeys ht
    exact hacc.keys
  · intro st call t hkeys hst hdist ht
    exact readable_step_iff hkeys hst ht (hdist t ht)
  · intro f c hc
    simp [start] at hc

/-! ### A project with its rules and a doc -/

def rulesPath : FilePath := ⟨true, ["app", "rules", "p.md"]⟩

def notesPath : FilePath := ⟨true, ["app", "rules", "docs", "p", "notes.md"]⟩

def rulesAndNotes : Orchd where
  db :=
    { Store.empty with
      projects := ⟨[⟨"p", "rules and notes", "", .active, 0, 0⟩], List.nodup_singleton _⟩
      rulesets := ⟨[⟨"r", .project, some "p", rulesPath, "", .default, 0, 0⟩],
        List.nodup_singleton _⟩
      docs := ⟨[⟨"d", "p", "notes", notesPath, "", 0, 0⟩], List.nodup_singleton _⟩ }
  files _ := .missing

theorem fileKeys_rulesAndNotes : rulesAndNotes.db.FileKeys where
  ruleset := by
    intro r hr q hq _
    rw [List.mem_singleton.1 hr, List.mem_singleton.1 hq]
  scope := by
    intro r hr
    rw [List.mem_singleton.1 hr]
    simp
  doc := by
    intro d hd e he _ _
    rw [List.mem_singleton.1 hd, List.mem_singleton.1 he]
  rulesetProject := by
    intro r hr p hp
    rw [List.mem_singleton.1 hr, Option.some.injEq] at hp
    rw [← hp]
    rfl
  docProject := by
    intro d hd
    rw [List.mem_singleton.1 hd]
    rfl

theorem distinctPaths_pair {a b : MdRow} (hrows : ∀ f, (st.accepted f).isSome → f = a ∨ f = b)
    (hne : st.o.db.pathOf a ≠ st.o.db.pathOf b) : st.DistinctPaths := by
  intro f g hf hg hpath
  rcases hrows f hf with rfl | rfl <;> rcases hrows g hg with rfl | rfl
  · rfl
  · exact absurd hpath hne
  · exact absurd hpath.symm hne
  · rfl

def saveRules (content : String) : FileCall :=
  .upsertRuleset .project (some "p") content none none 1

def saveNotes (content : String) : FileCall := .upsertDoc "p" "notes" content "new" 2

/-- The state when the rules are saved, and when the notes are after them. -/
theorem step_saveRules (c : String) : ∃ t,
    step Orchd.plainHost (start rulesAndNotes) (saveRules c) = some t ∧
      t.accepted = Function.update (fun _ => none) (.ruleset "r") (some c) ∧
      t.o.db.pathOf (.ruleset "r") = some rulesPath ∧ t.o.db.pathOf (.doc "d") = some notesPath ∧
      ∀ d, (saveNotes d).writesTo t.o = some (.doc "d", notesPath) ∧ ∃ u,
        step Orchd.plainHost t (saveNotes d) = some u ∧
          u.accepted = Function.update t.accepted (.doc "d") (some d) ∧
          u.o.db.pathOf (.ruleset "r") = some rulesPath ∧
          u.o.db.pathOf (.doc "d") = some notesPath :=
  ⟨_, rfl, rfl, rfl, rfl, fun _ => ⟨rfl, _, rfl, rfl, rfl, rfl⟩⟩

theorem isSome_update {accepted : MdRow → Option String} {f g : MdRow} {c : String}
    (h : (Function.update accepted f (some c) g).isSome) : g = f ∨ (accepted g).isSome := by
  by_cases hg : g = f
  · exact .inl hg
  · rw [Function.update_of_ne hg] at h
    exact .inr h

/-- The paths stay distinct when the rules and the notes are saved. -/
theorem distinctPaths_saves (c d : String) : Runs.Throughout (step Orchd.plainHost) DistinctPaths
    (start rulesAndNotes) [saveRules c, saveNotes d] := by
  have hne : (some rulesPath : Option FilePath) ≠ some notesPath := by decide
  obtain ⟨t, ht, hacc, hr, hd, hnotes⟩ := step_saveRules c
  obtain ⟨-, u, hu, hacc', hr', hd'⟩ := hnotes d
  have hrows : ∀ f, (t.accepted f).isSome → f = .ruleset "r" := by
    intro f hf
    rw [hacc] at hf
    rcases isSome_update hf with h | h
    · exact h
    · simp at h
  refine ⟨fun f g hf => by simp [start] at hf, fun t' ht' => ?_⟩
  obtain rfl := Option.some.inj (ht.symm.trans ht')
  refine ⟨distinctPaths_pair (b := .doc "d") (fun f hf => .inl (hrows f hf)) ?_,
    fun u' hu' => ?_⟩
  · rw [hr, hd]
    exact hne
  · obtain rfl := Option.some.inj (hu.symm.trans hu')
    refine distinctPaths_pair (a := .ruleset "r") (b := .doc "d") (fun f hf => ?_) ?_
    · rw [hacc'] at hf
      exact (isSome_update hf).symm.imp_left (hrows f)
    · rw [hr', hd']
      exact hne

theorem distinctPaths_saveRules (c : String) : Runs.Throughout (step Orchd.plainHost) DistinctPaths
    (start rulesAndNotes) [saveRules c] := by
  obtain ⟨hstart, hsteps⟩ := distinctPaths_saves c ""
  exact ⟨hstart, fun u hu => (hsteps u hu).1⟩

/-- A rule and a note, both short. -/
theorem readable_saves : Runs.Throughout (step Orchd.plainHost) (Readable Orchd.plainHost)
    (start rulesAndNotes) [saveRules "Ask first.", saveNotes "Ship it."] := by
  refine (readable_throughout_iff fileKeys_rulesAndNotes (distinctPaths_saves _ _)).2 ?_
  intro t ht
  obtain ⟨t', ht', hacc, hr, -, hnotes⟩ := step_saveRules "Ask first."
  obtain rfl := Option.some.inj (ht'.symm.trans ht)
  refine ⟨⟨?_, fun f p _ g _ hg => by simp [start] at hg⟩, fun u _ => ⟨⟨?_, ?_⟩, trivial⟩⟩
  · intro c hc
    obtain rfl := Option.some.inj hc
    decide
  · intro c hc
    obtain rfl := Option.some.inj hc
    decide
  · intro f p hw g _ hg
    rw [(hnotes "Ship it.").1, Option.some.injEq, Prod.mk.injEq] at hw
    obtain ⟨rfl, rfl⟩ := hw
    rw [hacc] at hg
    rcases isSome_update hg with rfl | h
    · rw [hr]
      decide
    · simp at h

/-- A text of a byte more than a mebibyte. -/
def longText : String := String.ofList (List.replicate 1048577 'a')

theorem utf8ByteSize_replicate (n : ℕ) :
    (String.ofList (List.replicate n 'a')).utf8ByteSize = n := by
  induction n with
  | zero => rfl
  | succ n ih =>
    rw [List.replicate_succ', String.ofList_append, String.utf8ByteSize_append, ih,
      show String.ofList ['a'] = String.singleton 'a' from rfl, String.utf8ByteSize_singleton]
    rfl

theorem maxMdReadBytes_lt_replicate {n : ℕ} (h : Files.maxMdReadBytes < n) :
    Files.maxMdReadBytes < (String.ofList (List.replicate n 'a')).utf8ByteSize := by
  rw [utf8ByteSize_replicate]
  exact h

theorem maxMdReadBytes_lt_longText : Files.maxMdReadBytes < longText.utf8ByteSize :=
  maxMdReadBytes_lt_replicate (by decide)

theorem saveRules_stores (c : String) : ∃ t r,
    step Orchd.plainHost (start rulesAndNotes) (saveRules c) = some t ∧
      t.accepted (.ruleset "r") = some c ∧ t.o.files rulesPath = .file c ∧
      t.o.db.rulesets.lookup "r" = some r ∧ r.mdPath = rulesPath ∧
      Orchd.loadRulesetByScope t.o.db .project (some "p") = .ok r :=
  ⟨_, _, rfl, rfl, rfl, rfl, rfl, rfl⟩

/-- Rules of a byte over the cap are written, and then reported as missing. -/
theorem long_rules_missing :
    Runs.Throughout (step Orchd.plainHost) DistinctPaths (start rulesAndNotes)
      [saveRules longText] ∧
    ∃ t r, step Orchd.plainHost (start rulesAndNotes) (saveRules longText) = some t ∧
      t.accepted (.ruleset "r") = some longText ∧ t.o.files rulesPath = .file longText ∧
      t.o.getRuleSet Orchd.plainHost .project (some "p") = .ok ⟨r, none, .missing⟩ ∧
      ¬t.Readable Orchd.plainHost := by
  obtain ⟨t, r, ht, hacc, hfile, hlookup, hpath, hload⟩ := saveRules_stores longText
  have hread : t.o.files.readState rulesPath = none := by
    rw [Files.readState, hfile]
    exact if_pos maxMdReadBytes_lt_longText
  refine ⟨distinctPaths_saveRules longText, t, r, ht, hacc, hfile, ?_, fun hreadable => ?_⟩
  · rw [Orchd.getRuleSet, hload]
    change Except.ok (t.o.buildRulesetView Orchd.plainHost r) = _
    rw [Orchd.buildRulesetView, Files.fileState, hpath, hread]
  · obtain ⟨f, p, c, -, hwrite, -⟩ := step_accepts fileKeys_rulesAndNotes ht
    obtain ⟨q, hq, hfile', hsize⟩ :=
      (Orchd.readsBack_iff hwrite.keys).1 (hreadable _ _ hacc)
    exact absurd maxMdReadBytes_lt_longText (not_lt.2 hsize)

end FileRun

end BuilderPro
