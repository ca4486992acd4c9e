import BuilderPro.App.RulesetPanel

/-!
# The documents editor

`DocsPanel.tsx`: a project's documents, one of which is selected and edited.  The draft is guarded
by the text it was last hydrated with, under the document's name.  A create's continuation selects
the new document and a delete's continuation selects none, whatever is selected by then.
-/

namespace BuilderPro

structure DocView where
  mdContent : Option String
  fileState : RuleFileState
  deriving DecidableEq

/-- `validateDocNameDraft`. -/
def validateDocNameDraft (name : String) : Option String :=
  if name = "" then none
  else if name.toList.length > 64 || name.toList.head? = some '.' ||
      !name.toList.all fun c => c.isLower || c.isDigit || c == '.' || c == '_' || c == '-' then
    some "name may only contain a-z, 0-9, '.', '_' and '-'"
  else none

/-- A call of `orchdUpsertDoc`, and where its text comes from. -/
structure DocSave where
  projectId : String
  name : String
  mdContent : String
  origins : List (String × Option String)
  deriving DecidableEq

/-- A create under `createGuard`. -/
structure DocCreate where
  projectId : String
  name : String
  replied : Bool
  deriving DecidableEq

inductive DocVerb
  | save
  | acknowledge
  | recreate
  | delete
  deriving DecidableEq

/-- A handler under `docGuard`. -/
structure DocCall where
  verb : DocVerb
  projectId : String
  name : String
  replied : Bool
  deriving DecidableEq

structure DocsPanel where
  projectId : String
  /-- The names the store lists, by project. -/
  docsByProject : String → Option (List String)
  /-- The store's views, by project and name. -/
  docViews : String → String → Option DocView
  selectedName : Option String
  draftName : String
  nameError : Option String
  content : LocalDraft (String × Option String) String
  /-- The dependencies with which the hydration effect last ran. -/
  contentDep : Option (Option String) × Option String
  /-- `hydratedDocRef`, once the effects of the mount have run. -/
  hydratedDocRef : Option String × String
  creating : Option DocCreate
  busy : Option DocCall
  sent : List DocSave

inductive DocsAction
  /-- The panel's tab is left, and opened again with the store of then. -/
  | mount (projectId : String) (docsByProject : String → Option (List String))
      (docViews : String → String → Option DocView)
  | switchProject (projectId : String)
  | select (name : String)
  | receiveDocs (projectId : String) (names : List String)
  /-- A view of any document comes, or that there is none. -/
  | receiveDoc (projectId name : String) (view : Option DocView)
  | typeContent (text : String)
  | typeName (text : String)
  | create
  | createReply (ok : Bool)
  | createDone
  | save
  | acknowledge
  | recreate
  | delete
  | reply (ok : Bool)
  | done

def DocsAction.typesContent : DocsAction → Bool
  | .typeContent _ => true
  | _ => false

/-- The text it sends comes from the document it is for. -/
def DocSave.Own (s : DocSave) : Prop := ∀ o ∈ s.origins, o = (s.projectId, some s.name)

namespace DocsPanel

variable (p : DocsPanel)

/-- The document that is edited. -/
def identity : String × Option String := (p.projectId, p.selectedName)

def view : Option DocView := p.selectedName.bind (p.docViews p.projectId)

def newestText : String := mdText (p.view.map (·.mdContent))

/-- The effect on `view?.mdContent` and the selected name. -/
def hydrationEffect : DocsPanel :=
  let dep := (p.view.map (·.mdContent), p.selectedName)
  { p with
    content := if dep = p.contentDep then p.content
      else p.content.hydrate (p.hydratedDocRef.1 = p.selectedName) p.hydratedDocRef.2 p.identity
        p.newestText
    contentDep := dep
    hydratedDocRef := if dep = p.contentDep then p.hydratedDocRef
      else (p.selectedName, p.newestText) }

def setSelectedName (name : Option String) : DocsPanel :=
  ({ p with selectedName := name }).hydrationEffect

/-- What the hooks start with, and the effects of the first commit. -/
def mounted (projectId : String) (docsByProject : String → Option (List String))
    (docViews : String → String → Option DocView) (sent : List DocSave) : DocsPanel :=
  { projectId, docsByProject, docViews, selectedName := none, draftName := "", nameError := none
    content := .hydrated (projectId, none) "", contentDep := (none, none)
    hydratedDocRef := (none, ""), creating := none, busy := none, sent }

/-- The panel gets another project, with the selection of the old one. -/
def setProject (projectId : String) : DocsPanel :=
  { p with
    projectId
    content := p.content.carry (projectId, p.selectedName) (newestText { p with projectId }) }

/-- The effect of the commit with the new project drops the selection. -/
def switchProject (projectId : String) : DocsPanel :=
  ({ (p.setProject projectId).hydrationEffect with
    draftName := "", nameError := none }).setSelectedName none

/-- The editor of the selected document, with its text and the text's button. -/
def showsContent : Bool := p.view.any (·.fileState ≠ .missing)

def handleCreate : DocsPanel :=
  let name := jsTrim p.draftName
  match validateDocNameDraft name with
  | some error => { p with nameError := some error }
  | none =>
    if ((p.docsByProject p.projectId).getD []).contains name then
      { p with nameError := some "a document with this name already exists" }
    else
      { p with
        nameError := none, creating := some ⟨p.projectId, name, false⟩
        sent := p.sent ++ [⟨p.projectId, name, "", []⟩] }

/-- A handler of the editor begins and sends what `sends` says. -/
def call (verb : DocVerb) (sends : String → List DocSave) : Option DocsPanel :=
  match p.busy, p.selectedName with
  | none, some name =>
    some { p with busy := some ⟨verb, p.projectId, name, false⟩, sent := p.sent ++ sends name }
  | _, _ => none

/-- What follows the reply before the refreshes. -/
def createReplied (name : String) : DocsPanel := ({ p with draftName := "" }).setSelectedName name

def replied (c : DocCall) : DocsPanel :=
  if c.verb = .delete then p.setSelectedName none else p

def step : DocsAction → Option DocsPanel
  | .mount projectId docs views => some (mounted projectId docs views p.sent)
  | .switchProject projectId =>
    if projectId = p.projectId then none else some (p.switchProject projectId)
  | .select name =>
    if ((p.docsByProject p.projectId).getD []).contains name then
      some (p.setSelectedName (some name))
    else none
  | .receiveDocs projectId names =>
    some { p with
      docsByProject := fun q => if q = projectId then some names else p.docsByProject q }
  | .receiveDoc projectId name view =>
    some ({ p with
      docViews := fun q n => if q = projectId ∧ n = name then view else p.docViews q n
      : DocsPanel }).hydrationEffect
  | .typeContent text =>
    if p.showsContent then some { p with content := p.content.edit p.identity text } else none
  | .typeName text => some { p with draftName := text, nameError := none }
  | .create => if jsTrim p.draftName = "" || p.creating.isSome then none else some p.handleCreate
  | .createReply ok => match p.creating with
    | some ⟨projectId, name, false⟩ =>
      if ok then
        some { p.createReplied name with creating := some ⟨projectId, name, true⟩ }
      else some { p with creating := none }
    | _ => none
  | .createDone => match p.creating with
    | some ⟨_, _, true⟩ => some { p with creating := none }
    | _ => none
  | .save =>
    if p.showsContent then
      p.call .save fun name => [⟨p.projectId, name, p.content.value, p.content.origins⟩]
    else none
  | .acknowledge =>
    if p.view.any (·.fileState = .externallyModified) then p.call .acknowledge fun _ => [] else none
  | .recreate =>
    if p.view.any (·.fileState = .missing) then
      p.call .recreate fun name => [⟨p.projectId, name, "", []⟩]
    else none
  | .delete => if p.view.isSome then p.call .delete fun _ => [] else none
  | .reply ok => match p.busy with
    | some ⟨verb, projectId, name, false⟩ =>
      if ok then
        some { p.replied ⟨verb, projectId, name, false⟩ with
          busy := some ⟨verb, projectId, name, true⟩ }
      else some { p with busy := none }
    | _ => none
  | .done => match p.busy with
    | some ⟨_, _, _, true⟩ => some { p with busy := none }
    | _ => none

/-! ### What becomes of the draft -/

/-- The user leaves the document that is edited. -/
def leaves : DocsAction → Bool
  | .mount _ _ _ | .switchProject _ => true
  | .select name => p.selectedName ≠ some name
  | _ => false

/-- The reply says that the document that is edited is deleted. -/
def deletes : DocsAction → Bool
  | .reply true => p.busy.any fun c => c.verb = .delete ∧ p.identity = (c.projectId, some c.name)
  | _ => false

/-- The step keeps the draft one document's: what is sent is that document's, an unedited draft is
what the newest view says, and one that differs from the text it was last hydrated with stays as it
is until the user types or leaves or the document is deleted. -/
def KeepsDraft (a : DocsAction) : Prop := ∀ p', p.step a = some p' →
  (∀ s ∈ p'.sent, s.Own) ∧ p'.content.Shows p'.newestText ∧
    (p.content.value ≠ p.hydratedDocRef.2 → p.leaves a = false → a.typesContent = false →
      p.deletes a = false → p'.identity = p.identity ∧ p'.content.value = p.content.value)

/-- A create or a delete ends while the draft is what it was last hydrated with or its document is
the one that is edited. -/
def InTurn : DocsAction → Prop
  | .createReply true => p.content.value ≠ p.hydratedDocRef.2 →
      ∀ c ∈ p.creating, p.selectedName = some c.name
  | .reply true => p.content.value ≠ p.hydratedDocRef.2 →
      ∀ c ∈ p.busy, c.verb = .delete → p.identity = (c.projectId, some c.name)
  | _ => True

structure Inv : Prop where
  dep : p.contentDep = (p.view.map (·.mdContent), p.selectedName)
  baseline : p.hydratedDocRef = (p.selectedName, p.newestText)
  own : p.content.OwnedBy p.identity
  shows : p.content.Shows p.newestText
  idle : p.selectedName = none → p.content.value = ""
  sent : ∀ s ∈ p.sent, s.Own

variable {p} {a : DocsAction} {p' : DocsPanel}

theorem inv_mounted {projectId : String} {docs : String → Option (List String)}
    {views : String → String → Option DocView} {sent : List DocSave} (h : ∀ s ∈ sent, s.Own) :
    (mounted projectId docs views sent).Inv :=
  ⟨rfl, rfl, LocalDraft.ownedBy_hydrated _ _, LocalDraft.shows_hydrated _ _, fun _ => rfl, h⟩

theorem newestText_of_none (h : p.selectedName = none) : p.newestText = "" := by
  rw [newestText, view, h]
  rfl

/-- With nothing selected nothing is edited. -/
theorem Inv.edited_selected (h : p.Inv) (hv : p.content.value ≠ p.hydratedDocRef.2) :
    p.selectedName ≠ none := by
  intro hn
  rw [h.idle hn, h.baseline] at hv
  exact hv (newestText_of_none hn).symm

/-! ### The effect -/

theorem hydrationEffect_eq_self (h : (p.view.map (·.mdContent), p.selectedName) = p.contentDep) :
    p.hydrationEffect = p := by
  rw [hydrationEffect, if_pos h, if_pos h, h]

/-- A document that was not the one edited is hydrated in full. -/
theorem inv_hydrationEffect_of_ne (hdep : p.contentDep.2 ≠ p.selectedName)
    (hname : p.hydratedDocRef.1 ≠ p.selectedName) (hsent : ∀ s ∈ p.sent, s.Own) :
    p.hydrationEffect.Inv := by
  have hne : (p.view.map (·.mdContent), p.selectedName) ≠ p.contentDep :=
    fun h => hdep (congrArg Prod.snd h).symm
  have hc : p.hydrationEffect.content = .hydrated p.identity p.newestText :=
    (if_neg hne).trans (LocalDraft.hydrate_of_not_same hname)
  refine ⟨rfl, if_neg hne, ?_, ?_, fun hn => ?_, hsent⟩
  · rw [hc]
    exact LocalDraft.ownedBy_hydrated _ _
  · rw [hc]
    exact LocalDraft.shows_hydrated _ _
  · rw [hc]
    exact newestText_of_none hn

/-- A view of the document that is edited is taken over by a draft that was not. -/
theorem inv_hydrationEffect (hbase : p.hydratedDocRef = (p.selectedName, mdText p.contentDep.1))
    (hown : p.content.OwnedBy p.identity) (hshows : p.content.Shows p.hydratedDocRef.2)
    (hidle : p.selectedName = none → p.content.value = "") (hsent : ∀ s ∈ p.sent, s.Own) :
    p.hydrationEffect.Inv := by
  by_cases hdep : (p.view.map (·.mdContent), p.selectedName) = p.contentDep
  · have hnew : p.hydratedDocRef = (p.selectedName, p.newestText) := by
      rw [hbase, ← hdep]
      rfl
    rw [hydrationEffect_eq_self hdep]
    refine ⟨hdep.symm, hnew, hown, ?_, hidle, hsent⟩
    rwa [hnew] at hshows
  · have hc : p.hydrationEffect.content = p.content.hydrate (p.hydratedDocRef.1 = p.selectedName)
        p.hydratedDocRef.2 p.identity p.newestText := if_neg hdep
    refine ⟨rfl, if_neg hdep, ?_, ?_, fun hn => ?_, hsent⟩
    · rw [hc]
      exact LocalDraft.OwnedBy.hydrate fun _ => hown
    · rw [hc]
      exact LocalDraft.Shows.hydrate fun _ => hshows
    · rw [hc, LocalDraft.hydrate]
      split_ifs
      · exact newestText_of_none hn
      · exact hidle hn
      · exact newestText_of_none hn

/-- An edited draft survives the views of its document. -/
theorem content_hydrationEffect (hname : p.hydratedDocRef.1 = p.selectedName)
    (hv : p.content.value ≠ p.hydratedDocRef.2) : p.hydrationEffect.content = p.content := by
  show (if _ then _ else _) = _
  split_ifs
  · rfl
  · exact LocalDraft.hydrate_of_edited hname hv

/-! ### The selection -/

theorem Inv.setSelectedName_self (h : p.Inv) {name : Option String} (hn : p.selectedName = name) :
    p.setSelectedName name = p := by
  subst hn
  exact hydrationEffect_eq_self h.dep.symm

theorem Inv.setSelectedName (h : p.Inv) (name : Option String) : (p.setSelectedName name).Inv := by
  by_cases hn : p.selectedName = name
  · rwa [h.setSelectedName_self hn]
  · refine inv_hydrationEffect_of_ne ?_ ?_ h.sent
    · rw [h.dep]
      exact hn
    · rw [h.baseline]
      exact hn

theorem hydrationEffect_of_none (hn : p.selectedName = none) (hdep : p.contentDep = (none, none)) :
    p.hydrationEffect = p := by
  apply hydrationEffect_eq_self
  rw [view, hn, hdep]
  rfl

theorem Inv.switchProject (h : p.Inv) (projectId : String) : (p.switchProject projectId).Inv := by
  by_cases hn : p.selectedName = none
  · have hdep : p.contentDep = (none, none) := by
      rw [h.dep, view, hn]
      rfl
    have hnew : newestText { p with projectId } = "" := newestText_of_none hn
    have hv : p.content.value = newestText { p with projectId } := (h.idle hn).trans hnew.symm
    have hq : (p.setProject projectId).hydrationEffect = p.setProject projectId :=
      hydrationEffect_of_none hn hdep
    have hswitch : p.switchProject projectId = { p.setProject projectId with
        draftName := "", nameError := none, selectedName := none } := by
      rw [DocsPanel.switchProject, hq]
      exact hydrationEffect_of_none rfl hdep
    rw [hswitch]
    refine ⟨hdep, ?_, ?_, ?_, fun _ => ?_, h.sent⟩
    · show p.hydratedDocRef = (none, "")
      rw [h.baseline, hn, newestText_of_none hn]
    · have hown : (p.setProject projectId).content.OwnedBy (projectId, p.selectedName) :=
        LocalDraft.ownedBy_carry hv
      rwa [hn] at hown
    · show (p.content.carry _ _).Shows ""
      rw [← hnew]
      exact LocalDraft.shows_carry_iff.2 hv
    · show (p.content.carry _ _).value = ""
      rw [LocalDraft.carry_value]
      exact h.idle hn
  · refine inv_hydrationEffect_of_ne hn ?_ h.sent
    show (if _ then p.hydratedDocRef else _).1 ≠ none
    split_ifs
    · rw [h.baseline]
      exact hn
    · exact hn

/-! ### Steps -/

theorem forall_sent_append {ss ts : List DocSave} (h : ∀ s ∈ ss, s.Own) (ht : ∀ s ∈ ts, s.Own) :
    ∀ s ∈ ss ++ ts, s.Own := fun s hs => (List.mem_append.1 hs).elim (h s) (ht s)

theorem call_eq_some {verb : DocVerb} {sends : String → List DocSave}
    (hs : p.call verb sends = some p') : ∃ name, p.selectedName = some name ∧
      p' = { p with
        busy := some ⟨verb, p.projectId, name, false⟩, sent := p.sent ++ sends name } := by
  rw [call] at hs
  split at hs
  · cases hs
    exact ⟨_, ‹_›, rfl⟩
  · cases hs

/-- A handler of the editor sends the draft or nothing. -/
theorem Inv.call (h : p.Inv) {verb : DocVerb} {sends : String → List DocSave}
    (hsends : ∀ name, p.selectedName = some name → ∀ s ∈ sends name, s.Own)
    (hs : p.call verb sends = some p') : p'.Inv := by
  obtain ⟨name, hn, rfl⟩ := call_eq_some hs
  exact ⟨h.dep, h.baseline, h.own, h.shows, h.idle, forall_sent_append h.sent (hsends name hn)⟩

theorem handleCreate_eq : ∃ error creating sent, p.handleCreate =
    { p with nameError := error, creating, sent } ∧ (sent = p.sent ∨
      ∃ name, sent = p.sent ++ [⟨p.projectId, name, "", []⟩]) := by
  rw [handleCreate]
  split
  · exact ⟨_, _, _, rfl, .inl rfl⟩
  · split_ifs
    · exact ⟨_, _, _, rfl, .inl rfl⟩
    · exact ⟨_, _, _, rfl, .inr ⟨_, rfl⟩⟩

theorem Inv.createReplied (h : p.Inv) (name : String) : (p.createReplied name).Inv :=
  Inv.setSelectedName (p := { p with draftName := "" })
    ⟨h.dep, h.baseline, h.own, h.shows, h.idle, h.sent⟩ (some name)

theorem Inv.replied (h : p.Inv) (c : DocCall) : (p.replied c).Inv := by
  rw [DocsPanel.replied]
  split_ifs
  · exact h.setSelectedName none
  · exact h

theorem createReply_eq_some {ok : Bool} (hs : p.step (.createReply ok) = some p') :
    ∃ projectId name, p.creating = some ⟨projectId, name, false⟩ ∧ p' =
      if ok then { p.createReplied name with creating := some ⟨projectId, name, true⟩ }
      else { p with creating := none } := by
  simp only [step] at hs
  split at hs
  · refine ⟨_, _, ‹_›, ?_⟩
    split_ifs at hs ⊢ <;> exact (Option.some.inj hs).symm
  · cases hs

theorem createDone_eq_some (hs : p.step .createDone = some p') :
    p' = { p with creating := none } := by
  simp only [step] at hs
  split at hs
  · exact (Option.some.inj hs).symm
  · cases hs

theorem reply_eq_some {ok : Bool} (hs : p.step (.reply ok) = some p') :
    ∃ c : DocCall, p.busy = some c ∧ p' =
      if ok then { p.replied c with busy := some { c with replied := true } }
      else { p with busy := none } := by
  simp only [step] at hs
  split at hs
  · refine ⟨_, ‹_›, ?_⟩
    split_ifs at hs ⊢ <;> exact (Option.some.inj hs).symm
  · cases hs

theorem done_eq_some (hs : p.step .done = some p') : p' = { p with busy := none } := by
  simp only [step] at hs
  split at hs
  · exact (Option.some.inj hs).symm
  · cases hs

theorem inv_step (h : p.Inv) (hs : p.step a = some p') : p'.Inv := by
  cases a with
  | mount projectId docs views =>
    cases hs
    exact inv_mounted h.sent
  | switchProject projectId =>
    obtain ⟨-, ⟨⟩⟩ := Option.ite_none_left_eq_some.1 hs
    exact h.switchProject projectId
  | select name =>
    obtain ⟨-, ⟨⟩⟩ := Option.ite_none_right_eq_some.1 hs
    exact h.setSelectedName (some name)
  | receiveDocs projectId names =>
    cases hs
    exact ⟨h.dep, h.baseline, h.own, h.shows, h.idle, h.sent⟩
  | receiveDoc projectId name view =>
    cases hs
    refine inv_hydrationEffect ?_ h.own ?_ h.idle h.sent
    · show p.hydratedDocRef = (p.selectedName, mdText p.contentDep.1)
      rw [h.baseline, h.dep]
      rfl
    · show p.content.Shows p.hydratedDocRef.2
      rw [h.baseline]
      exact h.shows
  | typeContent text =>
    obtain ⟨hview, ⟨⟩⟩ := Option.ite_none_right_eq_some.1 hs
    refine ⟨h.dep, h.baseline, h.own.edit, LocalDraft.shows_edit, fun hn => ?_, h.sent⟩
    rw [showsContent, view, show p.selectedName = none from hn] at hview
    cases hview
  | typeName text =>
    cases hs
    exact ⟨h.dep, h.baseline, h.own, h.shows, h.idle, h.sent⟩
  | create =>
    obtain ⟨-, ⟨⟩⟩ := Option.ite_none_left_eq_some.1 hs
    obtain ⟨_, _, _, hp, rfl | ⟨_, rfl⟩⟩ := handleCreate_eq (p := p)
    · rw [hp]
      exact ⟨h.dep, h.baseline, h.own, h.shows, h.idle, h.sent⟩
    · rw [hp]
      refine ⟨h.dep, h.baseline, h.own, h.shows, h.idle, forall_sent_append h.sent fun s hs => ?_⟩
      rw [List.mem_singleton.1 hs]
      exact fun o ho => absurd ho List.not_mem_nil
  | createReply ok =>
    obtain ⟨_, name, -, rfl⟩ := createReply_eq_some hs
    split_ifs
    · have hr := h.createReplied name
      exact ⟨hr.dep, hr.baseline, hr.own, hr.shows, hr.idle, hr.sent⟩
    · exact ⟨h.dep, h.baseline, h.own, h.shows, h.idle, h.sent⟩
  | createDone =>
    rw [createDone_eq_some hs]
    exact ⟨h.dep, h.baseline, h.own, h.shows, h.idle, h.sent⟩
  | save =>
    obtain ⟨-, hs⟩ := Option.ite_none_right_eq_some.1 hs
    refine h.call (fun name hn s hs => ?_) hs
    rw [List.mem_singleton.1 hs]
    intro o ho
    rw [h.own o ho, identity, hn]
  | acknowledge =>
    obtain ⟨-, hs⟩ := Option.ite_none_right_eq_some.1 hs
    exact h.call (fun _ _ _ hs => absurd hs List.not_mem_nil) hs
  | recreate =>
    obtain ⟨-, hs⟩ := Option.ite_none_right_eq_some.1 hs
    refine h.call (fun name hn s hs => ?_) hs
    rw [List.mem_singleton.1 hs]
    exact fun o ho => absurd ho List.not_mem_nil
  | delete =>
    obtain ⟨-, hs⟩ := Option.ite_none_right_eq_some.1 hs
    exact h.call (fun _ _ _ hs => absurd hs List.not_mem_nil) hs
  | reply ok =>
    obtain ⟨c, -, rfl⟩ := reply_eq_some hs
    split_ifs
    · have hr := h.replied c
      exact ⟨hr.dep, hr.baseline, hr.own, hr.shows, hr.idle, hr.sent⟩
    · exact ⟨h.dep, h.baseline, h.own, h.shows, h.idle, h.sent⟩
  | done =>
    rw [done_eq_some hs]
    exact ⟨h.dep, h.baseline, h.own, h.shows, h.idle, h.sent⟩

/-- In turn, an edited draft stays as it is until the user types or leaves or its document is
deleted. -/
theorem draft_kept (h : p.Inv) (ht : p.InTurn a) (hv : p.content.value ≠ p.hydratedDocRef.2)
    (hl : p.leaves a = false) (hty : a.typesContent = false) (hd : p.deletes a = false)
    (hs : p.step a = some p') : p'.identity = p.identity ∧ p'.content = p.content := by
  cases a with
  | mount projectId docs views => cases hl
  | switchProject projectId => cases hl
  | select name =>
    obtain ⟨-, ⟨⟩⟩ := Option.ite_none_right_eq_some.1 hs
    rw [h.setSelectedName_self (of_decide_eq_false hl |> not_not.1)]
    exact ⟨rfl, rfl⟩
  | receiveDocs projectId names =>
    cases hs
    exact ⟨rfl, rfl⟩
  | receiveDoc projectId name view =>
    cases hs
    exact ⟨rfl, content_hydrationEffect (congrArg Prod.fst h.baseline) hv⟩
  | typeContent text => cases hty
  | typeName text =>
    cases hs
    exact ⟨rfl, rfl⟩
  | create =>
    obtain ⟨-, ⟨⟩⟩ := Option.ite_none_left_eq_some.1 hs
    obtain ⟨_, _, _, hp, -⟩ := handleCreate_eq (p := p)
    rw [hp]
    exact ⟨rfl, rfl⟩
  | createReply ok =>
    obtain ⟨projectId, name, hc, rfl⟩ := createReply_eq_some hs
    split_ifs with hok
    · subst hok
      have hn := ht hv _ hc
      have hinv : Inv { p with draftName := "" } :=
        ⟨h.dep, h.baseline, h.own, h.shows, h.idle, h.sent⟩
      rw [createReplied, hinv.setSelectedName_self hn]
      exact ⟨rfl, rfl⟩
    · exact ⟨rfl, rfl⟩
  | createDone =>
    rw [createDone_eq_some hs]
    exact ⟨rfl, rfl⟩
  | save =>
    obtain ⟨-, hs⟩ := Option.ite_none_right_eq_some.1 hs
    obtain ⟨_, -, rfl⟩ := call_eq_some hs
    exact ⟨rfl, rfl⟩
  | acknowledge =>
    obtain ⟨-, hs⟩ := Option.ite_none_right_eq_some.1 hs
    obtain ⟨_, -, rfl⟩ := call_eq_some hs
    exact ⟨rfl, rfl⟩
  | recreate =>
    obtain ⟨-, hs⟩ := Option.ite_none_right_eq_some.1 hs
    obtain ⟨_, -, rfl⟩ := call_eq_some hs
    exact ⟨rfl, rfl⟩
  | delete =>
    obtain ⟨-, hs⟩ := Option.ite_none_right_eq_some.1 hs
    obtain ⟨_, -, rfl⟩ := call_eq_some hs
    exact ⟨rfl, rfl⟩
  | reply ok =>
    obtain ⟨c, hc, rfl⟩ := reply_eq_some hs
    split_ifs with hok
    · subst hok
      have hverb : c.verb ≠ .delete := by
        intro hverb
        have hid := ht hv c hc hverb
        rw [deletes, hc, Option.any_some, decide_eq_false_iff_not] at hd
        exact hd ⟨hverb, hid⟩
      rw [replied, if_neg hverb]
      exact ⟨rfl, rfl⟩
    · exact ⟨rfl, rfl⟩
  | done =>
    rw [done_eq_some hs]
    exact ⟨rfl, rfl⟩

theorem inTurn_of_keepsDraft (h : p.Inv) (hk : p.KeepsDraft a) (hs : p.step a = some p') :
    p.InTurn a := by
  obtain ⟨-, -, hkept⟩ := hk p' hs
  match a with
  | .createReply true =>
    intro hv c hc
    obtain ⟨projectId, name, hc', rfl⟩ := createReply_eq_some hs
    rw [hc', Option.mem_some_iff] at hc
    subst hc
    exact (congrArg Prod.snd (hkept hv rfl rfl rfl).1).symm
  | .reply true =>
    intro hv c hc hverb
    by_contra hid
    obtain ⟨c', hc', rfl⟩ := reply_eq_some hs
    obtain rfl : c' = c := Option.some.inj (hc'.symm.trans hc)
    have hd : p.deletes (.reply true) = false := by
      rw [deletes, hc', Option.any_some, decide_eq_false_iff_not]
      exact fun h => hid h.2
    have hsame := congrArg Prod.snd (hkept hv rfl rfl hd).1
    rw [if_pos rfl, replied, if_pos hverb] at hsame
    exact h.edited_selected hv hsame.symm
  | .createReply false | .reply false | .mount _ _ _ | .switchProject _ | .select _
  | .receiveDocs _ _ | .receiveDoc _ _ _ | .typeContent _ | .typeName _ | .create | .createDone
  | .save | .acknowledge | .recreate | .delete | .done => trivial

theorem keepsDraft_iff (h : p.Inv) (hs : p.step a = some p') : p.KeepsDraft a ↔ p.InTurn a := by
  refine ⟨fun hk => inTurn_of_keepsDraft h hk hs, fun ht q hq => ?_⟩
  have hinv := inv_step h hq
  refine ⟨hinv.sent, hinv.shows, fun hv hl hty hd => ?_⟩
  obtain ⟨hid, hc⟩ := draft_kept h ht hv hl hty hd hq
  exact ⟨hid, congrArg LocalDraft.value hc⟩

end DocsPanel

/-- The policy's fields belong to one ruleset in every run, a ruleset's text in the runs whose steps
come in turn and no others, and a document's draft likewise. -/
theorem drafts_belong (number : String → F64) (string : F64 → String) :
    (∀ props rulesets as,
      Runs.Along (RulesetPanel.step number string) (RulesetPanel.KeepsPolicy number string)
        (.mounted string props rulesets []) as) ∧
    (∀ props rulesets as,
      Runs.Along (RulesetPanel.step number string) (RulesetPanel.KeepsContent number string)
        (.mounted string props rulesets []) as ↔
      Runs.Along (RulesetPanel.step number string) RulesetPanel.InTurn
        (.mounted string props rulesets []) as) ∧
    ∀ projectId docs views as,
      Runs.Along DocsPanel.step DocsPanel.KeepsDraft (.mounted projectId docs views []) as ↔
      Runs.Along DocsPanel.step DocsPanel.InTurn (.mounted projectId docs views []) as := by
  refine ⟨RulesetPanel.policy_always_kept number string,
    RulesetPanel.content_kept_iff number string, fun projectId docs views as => ?_⟩
  exact Runs.along_iff (I := DocsPanel.Inv) (fun _ _ _ h _ hs => DocsPanel.inv_step h hs)
    (fun _ _ _ => DocsPanel.keepsDraft_iff)
    (DocsPanel.inv_mounted fun _ h => absurd h List.not_mem_nil) as

/-- The rules of two projects with empty files. -/
def emptyRules : String → Option RuleSetView := fun _ => some ⟨.default, some "", .ok⟩

def oneDoc : String → String → Option DocView :=
  fun _ name => if name = "n" then some ⟨some "", .ok⟩ else none

/-- Text typed for one project is saved as another's; a view comes over a text being typed; and a
document that has been created takes the place of one being typed. -/
theorem draft_not_kept :
    (∃ p ∈ Runs.run (RulesetPanel.step (fun _ => .finite 0) fun _ => "0")
        (.mounted (fun _ => "0") ⟨.project, some "a"⟩ emptyRules [])
        [.typeContent "A's", .switchTo ⟨.project, some "b"⟩, .saveContent],
      p.sent = [⟨⟨.project, some "b"⟩, some "A's", none, ["project:a", "project:a"]⟩]) ∧
    (∃ p ∈ Runs.run (RulesetPanel.step (fun _ => .finite 0) fun _ => "0")
        (.mounted (fun _ => "0") ⟨.project, some "a"⟩ emptyRules [])
        [.typeContent "mine", .receive "project:a" ⟨.default, some "theirs", .externallyModified⟩],
      p.content.value = "theirs") ∧
    ∃ p ∈ Runs.run DocsPanel.step (.mounted "a" (fun _ => some ["n"]) oneDoc [])
        [.typeName "m", .create, .select "n", .typeContent "mine", .createReply true],
      p.selectedName = some "m" ∧ p.content.value = "" := by
  decide +kernel

end BuilderPro
