import Mathlib.Data.List.SplitBy
import BuilderPro.App.WorkflowEditor
import BuilderPro.Lib.KeyedList

/-!
# The stages of a draft

`WorkflowEditor.tsx` opens the detail of a stage by its index.  While stages are moved, edited,
added and taken away it is an editor by their ids (`run_toById`): what is edited is the stage that
was opened.  `agents.ts` groups the stages into terminals, the longest runs of stages with one
effective agent (`computeTerminalGroups_eq_iff`).
-/

namespace BuilderPro

theorem swapStages_getElem? {stages : List Stage} {i j : ℕ} (hi : i < stages.length)
    (hj : j < stages.length) (k : ℕ) : (swapStages stages i j)[k]? =
      stages[if k = i then j else if k = j then i else k]? := by
  unfold swapStages
  rw [List.getElem?_eq_getElem hi, List.getElem?_eq_getElem hj]
  simp only [List.getElem?_set, List.length_set]
  by_cases hkj : j = k
  · subst hkj
    by_cases hki : i = j
    · subst hki
      simp [hi]
    · simp [hj, hi, Ne.symm hki]
  · by_cases hki : i = k
    · subst hki
      simp [hkj, hi, hj]
    · simp [hkj, hki, Ne.symm hkj, Ne.symm hki]

/-! ### The editor by ids -/

/-- An editor that remembers the stage it has open by its id. -/
structure ById where
  /-- Its own index is not used. -/
  editor : Editor
  openId : Option String
  deriving DecidableEq, Repr

namespace ById

variable (m : ById)

def openStage? : Option Stage :=
  m.openId.bind fun id => m.editor.draft.stages.find? fun stage => stage.id = id

def step : EditorEvent → Option ById
  | .editStage e =>
    m.openStage?.bind fun stage =>
      if e.offered m.editor.skills stage then
        some { m with
          editor := m.editor.update { m.editor.draft with
            stages := m.editor.draft.stages.map fun x =>
              if x.id = stage.id then e.apply x else x } }
      else none
  | .addStage uuid =>
    some ⟨m.editor.update { m.editor.draft with
      stages := m.editor.draft.stages ++ [newStage uuid] }, some (newStageId uuid)⟩
  | .removeStage =>
    m.openId.map fun id =>
      ⟨m.editor.update { m.editor.draft with
        stages := m.editor.draft.stages.filter fun x => x.id ≠ id }, none⟩
  -- the open stage moves with its id
  | .moveStage index up => (m.editor.step (.moveStage index up)).map ({ m with editor := · })
  | .toggleDetail index =>
    m.editor.draft.stages[index]?.map fun stage =>
      { m with openId := if m.openId = some stage.id then none else some stage.id }
  | .closeDetail => m.openId.map fun _ => { m with openId := none }
  | a => (m.editor.step a).map ({ m with editor := · })

end ById

namespace Editor

/-- The editor without its open detail. -/
def closed (s : Editor) : Editor := { s with openStageIndex := none }

/-- What an editor by ids knows of this one. -/
def toById (s : Editor) : ById := ⟨s.closed, s.openStage?.map Stage.id⟩

/-- The open detail is that of a stage. -/
def InRange (s : Editor) : Prop := ∀ i, s.openStageIndex = some i → i < s.draft.stages.length

variable {s t : Editor} {a : EditorEvent}

@[simp] theorem toById_editor : s.toById.editor = s.closed := rfl

@[simp] theorem closed_draft : s.closed.draft = s.draft := rfl

@[simp] theorem closed_skills : s.closed.skills = s.skills := rfl

theorem closed_moveStage (index : ℕ) (up : Bool) :
    (s.moveStage index up).closed = s.closed.moveStage index up := by
  rw [moveStage, moveStage, apply_ite closed, apply_ite closed, apply_ite closed]
  rfl

theorem closed_handleSave : s.handleSave.closed = s.closed.handleSave := by
  unfold handleSave
  rw [closed_draft]
  cases s.draft.validateWorkflow <;> rfl

theorem openStage?_of_inRange (hs : s.InRange) {i : ℕ} (hi : s.openStageIndex = some i) :
    ∃ stage, s.draft.stages[i]? = some stage ∧ s.openStage? = some stage := by
  have hlt := hs i hi
  refine ⟨s.draft.stages[i], List.getElem?_eq_getElem hlt, ?_⟩
  rw [openStage?, hi, Option.bind_some, List.getElem?_eq_getElem hlt]

theorem openStage?_none (hi : s.openStageIndex = none) : s.openStage? = none := by
  rw [openStage?, hi, Option.bind_none]

theorem toById_openStage? (hn : (s.draft.stages.map Stage.id).Nodup) :
    s.toById.openStage? = s.openStage? := by
  unfold ById.openStage? toById
  rcases hi : s.openStageIndex with _ | i
  · rw [openStage?_none hi]
    rfl
  · rw [openStage?, hi, Option.bind_some]
    rcases hx : s.draft.stages[i]? with _ | x
    · rfl
    · exact KeyedList.find?_eq_some hn hx

/-- What an editor has open goes by the ids of its stages. -/
theorem openId_congr (hi : t.openStageIndex = s.openStageIndex)
    (hids : t.draft.stages.map Stage.id = s.draft.stages.map Stage.id) :
    t.openStage?.map Stage.id = s.openStage?.map Stage.id := by
  unfold openStage?
  rw [hi, Option.map_bind, Option.map_bind]
  refine Option.bind_congr fun i _ => ?_
  simp only [Function.comp_apply, ← List.getElem?_map, hids]

theorem openStage?_moveTo {index target : ℕ} (hi : index < s.draft.stages.length)
    (ht : target < s.draft.stages.length) : (s.moveTo index target).openStage? = s.openStage? := by
  rcases hcur : s.openStageIndex with _ | cur
  · simp [openStage?, moveTo, hcur]
  · simp only [openStage?, moveTo, hcur, Option.map_some, Option.bind_some, update,
      swapStages_getElem? hi ht]
    congr 1
    split_ifs <;> simp_all

/-- What leaves the ids and the index alone leaves alone which stage is open. -/
theorem toById_congr (hi : t.openStageIndex = s.openStageIndex)
    (hids : t.draft.stages.map Stage.id = s.draft.stages.map Stage.id) :
    t.toById = ⟨t.closed, s.toById.openId⟩ := by
  rw [toById, openId_congr hi hids]
  rfl

/-- The detail that is open by its stage's id is the one that is open by its index. -/
theorem openId_eq_some_iff (hn : (s.draft.stages.map Stage.id).Nodup) (hs : s.InRange) {index : ℕ}
    {stage : Stage} (hx : s.draft.stages[index]? = some stage) :
    s.toById.openId = some stage.id ↔ s.openStageIndex = some index := by
  have hid : (s.draft.stages.map Stage.id)[index]? = some stage.id := by
    rw [List.getElem?_map, hx, Option.map_some]
  rcases hi : s.openStageIndex with _ | i
  · simp [toById, openStage?_none hi]
  · obtain ⟨y, hy, hopen⟩ := openStage?_of_inRange hs hi
    have hid' : (s.draft.stages.map Stage.id)[i]? = some y.id := by
      rw [List.getElem?_map, hy, Option.map_some]
    simp only [toById, hopen, Option.map_some]
    rw [← hid, ← hid', Option.some.injEq]
    have hlt : i < (s.draft.stages.map Stage.id).length := by simpa using hs i hi
    exact ⟨fun h => (List.getElem?_inj hlt hn).1 h, fun h => by rw [h]⟩

/-- An event that is no business of the detail's. -/
theorem step_toById_of
    (ha : s.toById.step a = (s.closed.step a).map fun u => ⟨u, s.toById.openId⟩)
    (h : s.closed.step a = (s.step a).map closed)
    (hopen : ∀ t, s.step a = some t → t.openStage?.map Stage.id = s.openStage?.map Stage.id) :
    s.toById.step a = (s.step a).map toById := by
  rw [ha, h, Option.map_map]
  refine Option.map_congr fun t ht => ?_
  rw [Function.comp_apply, toById, toById, hopen t ht]

/-- An event does to the editor by ids what it does to the editor. -/
theorem step_toById (hn : (s.draft.stages.map Stage.id).Nodup) (hs : s.InRange) (a : EditorEvent) :
    s.toById.step a = (s.step a).map toById := by
  cases a with
  | edit e =>
    refine step_toById_of rfl ?_ fun t ht => ?_
    · rw [step, step, apply_ite (Option.map closed)]
      rfl
    · simp only [step, Option.ite_none_right_eq_some, Option.some.injEq] at ht
      obtain ⟨-, rfl⟩ := ht
      exact openId_congr rfl (by rw [update, WorkflowDraft.stages_apply])
  | editStage e =>
    rw [ById.step, toById_openStage? hn, toById_editor, closed_draft, closed_skills]
    rcases hi : s.openStageIndex with _ | i
    · rw [openStage?_none hi]
      simp only [step, hi]
      rfl
    · obtain ⟨stage, hx, hopen⟩ := openStage?_of_inRange hs hi
      have hedit : s.draft.stages.set i (e.apply stage)
          = s.draft.stages.map fun x => if x.id = stage.id then e.apply x else x :=
        KeyedList.set_eq_map hn hx fun x => e.apply x
      rw [hopen, Option.bind_some]
      by_cases ho : e.offered s.skills stage = true
      · have hstep : s.step (.editStage e) = some (s.update { s.draft with
            stages := s.draft.stages.set i (e.apply stage) }) := by
          simp only [step, hi, hopen, ho, if_true]
        have hids : (s.draft.stages.set i (e.apply stage)).map Stage.id
            = s.draft.stages.map Stage.id := by
          rw [hedit, List.map_map]
          refine List.map_congr_left fun x _ => ?_
          simp only [Function.comp_apply]
          split_ifs <;> simp
        rw [hstep, Option.map_some, if_pos ho, ← hedit]
        have ht := toById_congr (s := s)
          (t := s.update { s.draft with stages := s.draft.stages.set i (e.apply stage) }) rfl hids
        exact congrArg some ht.symm
      · have hstep : s.step (.editStage e) = none := by
          simp only [step, hi, hopen, ho]
          rfl
        rw [hstep, if_neg ho]
        rfl
  | addStage uuid =>
    have hnew : (s.draft.stages ++ [newStage uuid])[s.draft.stages.length]?
        = some (newStage uuid) := List.getElem?_concat_length
    simp only [ById.step, step, toById, openStage?, update, Option.map_some, Option.bind_some, hnew]
    rfl
  | removeStage =>
    rcases hi : s.openStageIndex with _ | i
    · simp only [ById.step, step, toById, openStage?_none hi, hi]
      rfl
    · obtain ⟨stage, hx, hopen⟩ := openStage?_of_inRange hs hi
      have herase := KeyedList.eraseIdx_eq_filter hn hx
      simp only [ById.step, step, toById, hopen, hi, Option.map_some, herase]
      rfl
  | moveStage index up =>
    refine step_toById_of rfl ?_ fun t ht => ?_
    · rw [step, step, apply_ite (Option.map closed), Option.map_some, closed_moveStage]
      rfl
    · simp only [step, Option.ite_none_right_eq_some, Option.some.injEq] at ht
      obtain ⟨hlt, rfl⟩ := ht
      unfold moveStage
      split_ifs with hup hzero hlast
      · rfl
      · rw [openStage?_moveTo hlt (by omega)]
      · rfl
      · rw [openStage?_moveTo hlt (by omega)]
  | toggleDetail index =>
    by_cases hlt : index < s.draft.stages.length
    · have hstage : s.draft.stages[index]? = some s.draft.stages[index] :=
        List.getElem?_eq_getElem hlt
      have hsame := openId_eq_some_iff hn hs hstage
      rw [ById.step, toById_editor, closed_draft, hstage, Option.map_some]
      have hstep : s.step (.toggleDetail index) = some { s with
          openStageIndex := if s.openStageIndex = some index then none else some index } :=
        if_pos hlt
      rw [hstep, Option.map_some]
      by_cases hi : s.openStageIndex = some index
      · rw [if_pos hi, if_pos (hsame.2 hi)]
        rfl
      · rw [if_neg hi, if_neg (mt hsame.1 hi)]
        simp only [toById, openStage?, Option.bind_some, hstage, Option.map_some]
        rfl
    · have hstage : s.draft.stages[index]? = none := List.getElem?_eq_none (not_lt.1 hlt)
      have hstep : s.step (.toggleDetail index) = none := if_neg hlt
      rw [ById.step, toById_editor, closed_draft, hstage, hstep]
      rfl
  | closeDetail =>
    rcases hi : s.openStageIndex with _ | i
    · simp only [ById.step, step, toById, openStage?_none hi, hi]
      rfl
    · obtain ⟨stage, hx, hopen⟩ := openStage?_of_inRange hs hi
      simp only [ById.step, step, toById, hopen, hi, Option.map_some]
      rfl
  | refreshSkills skills => rfl
  | save =>
    refine step_toById_of rfl ?_ fun t ht => ?_
    · rw [step, step, apply_ite (Option.map closed), Option.map_some, closed_handleSave]
      rfl
    · simp only [step, Option.ite_none_right_eq_some, Option.some.injEq] at ht
      obtain ⟨-, rfl⟩ := ht
      unfold handleSave
      split <;> rfl
  | saveFailed =>
    refine step_toById_of rfl ?_ fun t ht => ?_
    · rw [step, step, apply_ite (Option.map closed)]
      rfl
    · simp only [step, Option.ite_none_right_eq_some, Option.some.injEq] at ht
      obtain ⟨-, rfl⟩ := ht
      rfl

theorem swapStages_length (stages : List Stage) (i j : ℕ) :
    (swapStages stages i j).length = stages.length :=
  (swapStages_perm stages i j).length_eq

theorem inRange_moveTo (hs : s.InRange) {index target : ℕ} (hi : index < s.draft.stages.length)
    (ht : target < s.draft.stages.length) : (s.moveTo index target).InRange := by
  intro k hk
  simp only [moveTo, update, swapStages_length, Option.map_eq_some_iff] at hk ⊢
  obtain ⟨cur, hcur, rfl⟩ := hk
  have := hs cur hcur
  split_ifs <;> assumption

theorem step_inRange (hs : s.InRange) (h : s.step a = some t) : t.InRange := by
  cases a with
  | edit e =>
    simp only [step, Option.ite_none_right_eq_some, Option.some.injEq] at h
    obtain ⟨-, rfl⟩ := h
    intro i hi
    rw [update, WorkflowDraft.stages_apply]
    exact hs i hi
  | editStage e =>
    simp only [step] at h
    split at h
    · simp only [Option.ite_none_right_eq_some, Option.some.injEq] at h
      obtain ⟨-, rfl⟩ := h
      intro i hi
      simp only [update, List.length_set]
      exact hs i hi
    · cases h
  | addStage uuid =>
    cases h
    intro i hi
    cases hi
    simp [update]
  | removeStage =>
    simp only [step] at h
    split at h <;> cases h
    intro i hi
    cases hi
  | moveStage index up =>
    simp only [step, Option.ite_none_right_eq_some, Option.some.injEq] at h
    obtain ⟨hlt, rfl⟩ := h
    unfold moveStage
    split_ifs
    · exact hs
    · exact inRange_moveTo hs hlt (by omega)
    · exact hs
    · exact inRange_moveTo hs hlt (by omega)
  | toggleDetail index =>
    simp only [step, Option.ite_none_right_eq_some, Option.some.injEq] at h
    obtain ⟨hlt, rfl⟩ := h
    intro i hi
    simp only [] at hi
    split_ifs at hi
    cases hi
    exact hlt
  | closeDetail =>
    simp only [step, Option.ite_none_right_eq_some, Option.some.injEq] at h
    obtain ⟨-, rfl⟩ := h
    intro i hi
    cases hi
  | refreshSkills skills =>
    cases h
    exact hs
  | save =>
    simp only [step, Option.ite_none_right_eq_some, Option.some.injEq] at h
    obtain ⟨-, rfl⟩ := h
    unfold handleSave
    split <;> exact hs
  | saveFailed =>
    simp only [step, Option.ite_none_right_eq_some, Option.some.injEq] at h
    obtain ⟨-, rfl⟩ := h
    exact hs

/-- Along every run, the editor is one by ids: the detail edits and takes away the stage that was
opened, whatever has been moved, added or taken away meanwhile. -/
theorem run_toById {host : Host} {parse : String → Option Workflow} {files : Files}
    {d : WorkflowDraft} {skills : List String} {as : List EditorEvent}
    (hd : Opened host parse files d) (hskills : "" ∉ skills)
    (has : Runs.Along step Promised (start d skills) as) :
    Runs.run ById.step ⟨start d skills, none⟩ as
      = (Runs.run step (start d skills) as).map toById :=
  has.run_map (I := fun s => (s.draft.Sound ∧ "" ∉ s.skills) ∧ s.InRange)
    (fun _ _ _ hs ha hu => ⟨step_sound hs.1.1 hs.1.2 ha hu, step_inRange hs.2 hu⟩)
    (fun _ a hs => step_toById hs.1.1.nodup hs.2 a) ⟨⟨hd.sound, hskills⟩, nofun⟩

/-- The second of two stages is opened, moved to the front and named there. -/
def moveOpened : List EditorEvent :=
  [.addStage "1", .addStage "2", .moveStage 1 true, .editStage (.name "First")]

def movedDraft : WorkflowDraft :=
  { blankDraft with stages := [{ newStage "2" with name := "First" }, newStage "1"] }

theorem moveOpened_byId :
    Runs.run ById.step ⟨start blankDraft [], none⟩ moveOpened
        = (Runs.run step (start blankDraft []) moveOpened).map toById
      ∧ (Runs.run step (start blankDraft []) moveOpened).map toById
        = some ⟨start movedDraft [], some "stage-2"⟩ := by
  have hnew : Opened Orchd.plainHost (fun _ => none) (fun _ => .missing) blankDraft := .new
  exact ⟨run_toById hnew List.not_mem_nil (by decide), by decide⟩

end Editor

/-! ### Terminals -/

/-- Consecutive stages with one effective agent, each with its index. -/
structure TerminalGroup where
  agent : String
  stages : List (Stage × ℕ)
  deriving DecidableEq, Repr

/-- `stage.agent ?? defaultAgent`. -/
def effectiveAgent (defaultAgent : String) (stage : Stage) : String :=
  stage.agent.getD defaultAgent

/-- The loop's body. -/
def pushStage (defaultAgent : String) (groups : List TerminalGroup) (p : Stage × ℕ) :
    List TerminalGroup :=
  let agent := effectiveAgent defaultAgent p.1
  match groups.getLast? with
  | some last =>
    if last.agent = agent then groups.dropLast ++ [⟨last.agent, last.stages ++ [p]⟩]
    else groups ++ [⟨agent, [p]⟩]
  | none => groups ++ [⟨agent, [p]⟩]

def computeTerminalGroups (stages : List Stage) (defaultAgent : String) : List TerminalGroup :=
  stages.zipIdx.foldl (pushStage defaultAgent) []

/-- The groups make up the list, each has stages, all of its agent, and neighbours' agents
differ. -/
structure Terminals (defaultAgent : String) (l : List (Stage × ℕ)) (gs : List TerminalGroup) :
    Prop where
  flatten : (gs.map TerminalGroup.stages).flatten = l
  stages_ne_nil : ∀ g ∈ gs, g.stages ≠ []
  agent : ∀ g ∈ gs, ∀ p ∈ g.stages, effectiveAgent defaultAgent p.1 = g.agent
  chain : gs.IsChain fun g h => g.agent ≠ h.agent

section Terminals

variable {defaultAgent : String} {l : List (Stage × ℕ)} {gs hs : List TerminalGroup}

theorem Terminals.pushStage (h : Terminals defaultAgent l gs) (p : Stage × ℕ) :
    Terminals defaultAgent (l ++ [p]) (pushStage defaultAgent gs p) := by
  obtain ⟨rfl, hne, hagent, hchain⟩ := h
  unfold BuilderPro.pushStage
  rcases List.eq_nil_or_concat gs with rfl | ⟨init, last, rfl⟩
  · exact ⟨rfl, by simp, by simp +contextual, by simp⟩
  · rw [List.concat_eq_append] at *
    simp only [List.forall_mem_append, List.forall_mem_singleton] at hne hagent
    simp only [List.getLast?_concat, List.dropLast_concat]
    split_ifs with heq
    · refine ⟨by simp, ?_, ?_, ?_⟩
      · simp only [List.forall_mem_append, List.forall_mem_singleton]
        exact ⟨hne.1, by simp⟩
      · simp only [List.forall_mem_append, List.forall_mem_singleton]
        exact ⟨hagent.1, hagent.2, heq.symm⟩
      · rw [List.isChain_append] at hchain ⊢
        simpa using hchain
    · refine ⟨by simp, ?_, ?_, ?_⟩
      · simp only [List.forall_mem_append, List.forall_mem_singleton]
        exact ⟨hne, by simp⟩
      · simp only [List.forall_mem_append, List.forall_mem_singleton]
        exact ⟨hagent, trivial⟩
      · rw [List.isChain_append]
        simpa using ⟨hchain, heq⟩

/-- The groups are the longest runs of stages with one effective agent. -/
theorem Terminals.splitBy (h : Terminals defaultAgent l gs) :
    l.splitBy (fun p q => effectiveAgent defaultAgent p.1 = effectiveAgent defaultAgent q.1)
      = gs.map TerminalGroup.stages := by
  rw [List.splitBy_eq_iff]
  refine ⟨h.flatten.symm, ?_, ?_, ?_⟩
  · simpa using h.stages_ne_nil
  · intro m hm
    obtain ⟨g, hg, rfl⟩ := List.mem_map.1 hm
    have hpair : g.stages.Pairwise fun p q =>
        decide (effectiveAgent defaultAgent p.1 = effectiveAgent defaultAgent q.1) = true :=
      List.pairwise_of_forall_mem_list fun p hp q hq =>
        decide_eq_true ((h.agent g hg p hp).trans (h.agent g hg q hq).symm)
    exact hpair.isChain
  · rw [List.isChain_map]
    refine h.chain.imp_of_mem_imp fun g k hg hk hne => ?_
    refine ⟨h.stages_ne_nil g hg, h.stages_ne_nil k hk, ?_⟩
    rw [decide_eq_false_iff_not, h.agent g hg _ (List.getLast_mem _),
      h.agent k hk _ (List.head_mem _)]
    exact hne

/-- The agent of a group is that of its first stage. -/
theorem Terminals.eq_map (h : Terminals defaultAgent l gs) :
    gs = (gs.map TerminalGroup.stages).map fun m =>
      ⟨(m.head?.map fun p => effectiveAgent defaultAgent p.1).getD "", m⟩ := by
  rw [List.map_map]
  refine (List.map_id gs).symm.trans (List.map_congr_left fun g hg => ?_)
  obtain ⟨p, m, hm⟩ := List.exists_cons_of_ne_nil (h.stages_ne_nil g hg)
  have hp := h.agent g hg p (hm ▸ List.mem_cons_self)
  simp only [Function.comp_apply, hm, List.head?_cons, Option.map_some, Option.getD_some, hp, id]
  rw [← hm]

theorem Terminals.unique (h : Terminals defaultAgent l gs) (h' : Terminals defaultAgent l hs) :
    gs = hs := by
  rw [h.eq_map, h'.eq_map, ← h.splitBy, ← h'.splitBy]

end Terminals

/-- The terminals of a workflow are the one way to cut its stages, in order, into groups of one
effective agent with a change of agent at each boundary. -/
theorem computeTerminalGroups_eq_iff {stages : List Stage} {defaultAgent : String}
    {gs : List TerminalGroup} : computeTerminalGroups stages defaultAgent = gs ↔
      Terminals defaultAgent stages.zipIdx gs := by
  have hall : ∀ (l m : List (Stage × ℕ)) (gs : List TerminalGroup), Terminals defaultAgent m gs →
      Terminals defaultAgent (m ++ l) (l.foldl (pushStage defaultAgent) gs) := by
    intro l
    induction l with
    | nil => intro m gs h; simpa using h
    | cons p l ih =>
      intro m gs h
      have := ih (m ++ [p]) _ (h.pushStage p)
      rwa [List.append_assoc] at this
  have hgroups : Terminals defaultAgent stages.zipIdx (computeTerminalGroups stages defaultAgent) :=
    hall stages.zipIdx [] [] ⟨rfl, nofun, nofun, .nil⟩
  exact ⟨fun h => h ▸ hgroups, hgroups.unique⟩

end BuilderPro
