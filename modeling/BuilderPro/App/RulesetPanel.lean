import Mathlib.Data.List.DropRight
import BuilderPro.Lib.LocalDraft
import BuilderPro.Lib.Runs
import BuilderPro.Orchd.Domain

/-!
# The rules editor

`RulesetPanel.tsx`: drafts of a ruleset's text and of the fields of its policy, hydrated from the
store's view of the ruleset that the props name.  Each field of the policy is guarded by the values
it was last hydrated with; the text is not.  The effects of a commit run with it.  The requests'
replies change the panel only by the views they bring, and reading a number and printing one are the
language's (`number`, `string`).
-/

namespace BuilderPro

/-- What `trim` takes off. -/
def isJsSpace (c : Char) : Bool :=
  c.toNat ∈ [0x9, 0xa, 0xb, 0xc, 0xd, 0x20, 0xa0, 0x1680, 0x2028, 0x2029, 0x202f, 0x205f, 0x3000,
    0xfeff] || (0x2000 ≤ c.toNat && c.toNat ≤ 0x200a)

def jsTrim (s : String) : String :=
  String.ofList ((s.toList.dropWhile isJsSpace).rdropWhile isJsSpace)

structure RuleSetView where
  policy : PolicyRules
  mdContent : Option String
  fileState : RuleFileState
  deriving DecidableEq

structure RulesetProps where
  scope : RuleScope
  projectId : Option String
  deriving DecidableEq

/-- `rulesetKey`. -/
def RulesetProps.key (props : RulesetProps) : String :=
  match props.scope with
  | .global => "global"
  | .project => "project:" ++ props.projectId.getD "null"

/-- `view?.mdContent ?? ""`. -/
def mdText (mdContent : Option (Option String)) : String := mdContent.join.getD ""

/-- The drafts of the policy form. -/
inductive PolicyField
  | spendCapText
  | approvalClasses
  | pathAllowlist
  | supervisorEnabled
  | delegatedClasses
  | instruction
  | customRules
  deriving DecidableEq

namespace PolicyField

def all : List PolicyField := [spendCapText, approvalClasses, pathAllowlist, supervisorEnabled,
  delegatedClasses, instruction, customRules]

def Value : PolicyField → Type
  | spendCapText | instruction => String
  | approvalClasses | pathAllowlist | delegatedClasses | customRules => List String
  | supervisorEnabled => Bool

instance : (f : PolicyField) → DecidableEq f.Value
  | spendCapText | instruction => inferInstanceAs (DecidableEq String)
  | approvalClasses | pathAllowlist | delegatedClasses | customRules =>
    inferInstanceAs (DecidableEq (List String))
  | supervisorEnabled => inferInstanceAs (DecidableEq Bool)

/-- The field's value in a view, or what stands for it while there is none. -/
def next (string : F64 → String) (policy : Option PolicyRules) : (f : PolicyField) → f.Value
  | spendCapText => ((policy.bind (·.spendCapUsd)).map string).getD ""
  | approvalClasses => (policy.map (·.approvalClasses)).getD []
  | pathAllowlist => (policy.map (·.pathAllowlist)).getD []
  | supervisorEnabled => (policy.map (·.supervisor.enabled)).getD false
  | delegatedClasses => (policy.map (·.supervisor.delegatedClasses)).getD []
  | instruction => (policy.map (·.supervisor.instruction)).getD ""
  | customRules => (policy.map (·.supervisor.customRules)).getD []

end PolicyField

/-- The form's `validatePolicy`. -/
def validatePolicyForm (number : String → F64) (spendCapText : String)
    (approvalClasses pathAllowlist : List String) (supervisor : SupervisorConfig) :
    Except String PolicyRules := do
  let trimmedCap := jsTrim spendCapText
  let spendCapUsd ← if trimmedCap = "" then pure none else do
    let parsed := number trimmedCap
    if !parsed.isFinite then throw "spend cap must be a number"
    if parsed.isNegative then throw "spend cap cannot be negative"
    pure (some parsed)
  if approvalClasses.any (jsTrim · == "") || pathAllowlist.any (jsTrim · == "") then
    throw "empty entries are not allowed"
  if supervisor.enabled && supervisor.delegatedClasses.isEmpty then
    throw "delegate at least one class or disable the CEO"
  return ⟨spendCapUsd, approvalClasses, pathAllowlist, supervisor⟩

/-- A call of `orchdUpsertRuleset`, and where its text comes from. -/
structure RulesetSave where
  props : RulesetProps
  mdContent : Option String
  policy : Option PolicyRules
  origins : List String
  deriving DecidableEq

/-- `hydratedRef`, once the effects of the mount have run. -/
structure PolicyBaseline where
  identity : String
  values : (f : PolicyField) → f.Value

structure RulesetPanel where
  props : RulesetProps
  /-- The store's views by key. -/
  rulesets : String → Option RuleSetView
  content : LocalDraft String String
  /-- `view?.mdContent` when the effect that depends on it last ran. -/
  contentDep : Option (Option String)
  policy : (f : PolicyField) → LocalDraft String f.Value
  hydratedRef : PolicyBaseline
  policyError : Option String
  sent : List RulesetSave

inductive RulesetAction
  /-- The panel's tab is left, and opened again with the store's views of then. -/
  | mount (props : RulesetProps) (rulesets : String → Option RuleSetView)
  | switchTo (props : RulesetProps)
  /-- A view of any ruleset comes, in the reply of a refresh. -/
  | receive (key : String) (view : RuleSetView)
  | typeContent (text : String)
  | editField (f : PolicyField) (value : f.Value)
  | saveContent
  | recreate
  | savePolicy

/-- The user leaves the ruleset that is shown. -/
def RulesetAction.leaves : RulesetAction → Bool
  | .mount _ _ | .switchTo _ => true
  | _ => false

def RulesetAction.typesContent : RulesetAction → Bool
  | .typeContent _ => true
  | _ => false

def RulesetAction.edits (f : PolicyField) : RulesetAction → Bool
  | .editField g _ => g = f
  | _ => false

/-- The text it sends comes from the ruleset it is for. -/
def RulesetSave.Own (s : RulesetSave) : Prop := ∀ o ∈ s.origins, o = s.props.key

namespace RulesetPanel

variable (number : String → F64) (string : F64 → String) (p : RulesetPanel)

def key : String := p.props.key

def view : Option RuleSetView := p.rulesets p.key

/-- The effect on `view?.mdContent`. -/
def contentEffect : RulesetPanel :=
  let dep := p.view.map (·.mdContent)
  { p with
    content := if dep = p.contentDep then p.content else .hydrated p.key (mdText dep)
    contentDep := dep }

/-- The effect on the view's policy and the key. -/
def policyEffect : RulesetPanel :=
  let next := PolicyField.next string (p.view.map (·.policy))
  { p with
    policy := fun f => (p.policy f).hydrate (p.hydratedRef.identity = p.key)
      (p.hydratedRef.values f) p.key (next f)
    policyError := if p.hydratedRef.identity = p.key then p.policyError else none
    hydratedRef := ⟨p.key, next⟩ }

/-- What the hooks start with, and the effects of the first commit. -/
def mounted (props : RulesetProps) (rulesets : String → Option RuleSetView)
    (sent : List RulesetSave) : RulesetPanel :=
  let dep := (rulesets props.key).map (·.mdContent)
  let next := PolicyField.next string ((rulesets props.key).map (·.policy))
  { props, rulesets, content := .hydrated props.key (mdText dep), contentDep := dep
    policy := fun f => .hydrated props.key (next f), hydratedRef := ⟨props.key, next⟩
    policyError := none, sent }

/-- The text and its buttons are shown. -/
def showsContent : Bool := p.view.any (·.fileState ≠ .missing)

/-- The field's control is shown. -/
def showsField (f : PolicyField) : Bool :=
  p.view.isSome && match f with
    | .spendCapText | .approvalClasses | .pathAllowlist => true
    | .supervisorEnabled => p.props.scope = .project
    | .delegatedClasses | .instruction | .customRules =>
      p.props.scope = .project && (p.policy .supervisorEnabled).value

/-- The validated policy, as `handleSavePolicy` makes it of the drafts. -/
def validated : Except String PolicyRules :=
  validatePolicyForm number (p.policy .spendCapText).value (p.policy .approvalClasses).value
    (p.policy .pathAllowlist).value
    ⟨(p.policy .supervisorEnabled).value, (p.policy .delegatedClasses).value,
      (p.policy .instruction).value, (p.policy .customRules).value⟩

def policyOrigins : List String := PolicyField.all.flatMap fun f => (p.policy f).origins

def handleSavePolicy : RulesetPanel :=
  match p.validated number with
  | .error error => { p with policyError := some error }
  | .ok policy =>
    { p with
      policyError := none
      sent := p.sent ++ [⟨p.props, none, some policy, p.policyOrigins⟩] }

def switchTo (props : RulesetProps) : RulesetPanel :=
  let text := mdText ((p.rulesets props.key).map (·.mdContent))
  ({ p with props, content := p.content.carry props.key text }).contentEffect.policyEffect string

def setView (key : String) (view : RuleSetView) : RulesetPanel :=
  { p with rulesets := fun k => if k = key then some view else p.rulesets k }

def receive (key : String) (view : RuleSetView) : RulesetPanel :=
  if key = p.key then (p.setView key view).contentEffect.policyEffect string else p.setView key view

def step : RulesetAction → Option RulesetPanel
  | .mount props rulesets => some (mounted string props rulesets p.sent)
  | .switchTo props => if props.key = p.key then none else some (p.switchTo string props)
  | .receive key view => some (p.receive string key view)
  | .typeContent text =>
    if p.showsContent then some { p with content := p.content.edit p.key text } else none
  | .editField f value =>
    if p.showsField f then
      some { p with
        policy := fun g => if h : f = g then (p.policy g).edit p.key (h ▸ value) else p.policy g
        policyError := none }
    else none
  | .saveContent =>
    if p.showsContent then
      some { p with
        sent := p.sent ++ [⟨p.props, some p.content.value, none, p.content.origins⟩] }
    else none
  | .recreate =>
    if p.view.any (·.fileState = .missing) then
      some { p with sent := p.sent ++ [⟨p.props, some "", none, []⟩] }
    else none
  | .savePolicy => if p.view.isSome then some (p.handleSavePolicy number) else none

/-! ### What becomes of the drafts -/

/-- `view?.mdContent ?? ""` of the newest view. -/
def newestText : String := mdText (p.view.map (·.mdContent))

def newestField (f : PolicyField) : f.Value := f.next string (p.view.map (·.policy))

/-- The step keeps the text a draft of one ruleset: what is sent is that ruleset's, an unedited
draft is what the newest view says, and one that differs from the text it was last hydrated with
stays as it is until the user types or leaves. -/
def KeepsContent (a : RulesetAction) : Prop := ∀ p', step number string p a = some p' →
  (∀ s ∈ p'.sent, s.mdContent.isSome → s.Own) ∧ p'.content.Shows p'.newestText ∧
    (p.content.value ≠ mdText p.contentDep → a.leaves = false → a.typesContent = false →
      p'.key = p.key ∧ p'.content.value = p.content.value)

/-- The same of the policy's fields. -/
def KeepsPolicy (a : RulesetAction) : Prop := ∀ p', step number string p a = some p' →
  (∀ s ∈ p'.sent, s.policy.isSome → s.Own) ∧ ∀ f, (p'.policy f).Shows (p'.newestField string f) ∧
    ((p.policy f).value ≠ p.hydratedRef.values f → a.leaves = false → a.edits f = false →
      p'.key = p.key ∧ (p'.policy f).value = (p.policy f).value)

/-- Another ruleset with the same text is selected, or a view of the ruleset that is shown brings
another text, only while the draft is what it was last hydrated with; or the view brings the draft's
own text. -/
def InTurn : RulesetAction → Prop
  | .switchTo props => (p.rulesets props.key).map (·.mdContent) = p.contentDep →
      p.content.value = mdText p.contentDep
  | .receive key view => key = p.key → some view.mdContent ≠ p.contentDep →
      p.content.value = mdText p.contentDep ∨ p.content.value = mdText (some view.mdContent)
  | _ => True

structure ContentInv : Prop where
  dep : p.contentDep = p.view.map (·.mdContent)
  own : p.content.OwnedBy p.key
  shows : p.content.Shows p.newestText
  sent : ∀ s ∈ p.sent, s.mdContent.isSome → s.Own

structure PolicyInv : Prop where
  identity : p.hydratedRef.identity = p.key
  values : p.hydratedRef.values = p.newestField string
  own : ∀ f, (p.policy f).OwnedBy p.key
  shows : ∀ f, (p.policy f).Shows (p.newestField string f)
  sent : ∀ s ∈ p.sent, s.policy.isSome → s.Own

variable {number string p} {a : RulesetAction} {p' : RulesetPanel}

theorem contentInv_mounted {props : RulesetProps} {rulesets : String → Option RuleSetView}
    {sent : List RulesetSave} (h : ∀ s ∈ sent, s.mdContent.isSome → s.Own) :
    (mounted string props rulesets sent).ContentInv :=
  ⟨rfl, LocalDraft.ownedBy_hydrated _ _, LocalDraft.shows_hydrated _ _, h⟩

theorem policyInv_mounted {props : RulesetProps} {rulesets : String → Option RuleSetView}
    {sent : List RulesetSave} (h : ∀ s ∈ sent, s.policy.isSome → s.Own) :
    (mounted string props rulesets sent).PolicyInv string :=
  ⟨rfl, rfl, fun _ => LocalDraft.ownedBy_hydrated _ _, fun _ => LocalDraft.shows_hydrated _ _, h⟩

/-- A save adds what it sends. -/
theorem forall_sent_concat {C : RulesetSave → Prop} {ss : List RulesetSave} {s : RulesetSave}
    (h : ∀ s ∈ ss, C s) (hs : C s) : ∀ t ∈ ss ++ [s], C t := by
  intro t ht
  rcases List.mem_append.1 ht with ht | ht
  · exact h t ht
  · rwa [List.mem_singleton.1 ht]

theorem policyOrigins_own (h : ∀ f, (p.policy f).OwnedBy p.key) : ∀ o ∈ p.policyOrigins,
    o = p.key := by
  intro o ho
  obtain ⟨f, -, hf⟩ := List.mem_flatMap.1 ho
  exact h f o hf

/-- A save of the policy sends what the drafts come from, or says why it does not. -/
theorem handleSavePolicy_eq (number : String → F64) (p : RulesetPanel) :
    ∃ error sent, p.handleSavePolicy number = { p with policyError := error, sent } ∧
    (sent = p.sent ∨
      ∃ policy, sent = p.sent ++ [⟨p.props, none, some policy, p.policyOrigins⟩]) := by
  rw [handleSavePolicy]
  split
  · exact ⟨_, _, rfl, .inl rfl⟩
  · exact ⟨_, _, rfl, .inr ⟨_, rfl⟩⟩

/-! ### The text -/

theorem ContentInv.switchTo (h : p.ContentInv) {props : RulesetProps}
    (ht : p.InTurn (.switchTo props)) : (p.switchTo string props).ContentInv := by
  by_cases hdep : (p.rulesets props.key).map (·.mdContent) = p.contentDep
  · have hv : p.content.value = mdText ((p.rulesets props.key).map (·.mdContent)) := by
      rw [hdep]
      exact ht hdep
    have hc : (p.switchTo string props).content = p.content.carry props.key
        (mdText ((p.rulesets props.key).map (·.mdContent))) := if_pos hdep
    refine ⟨rfl, ?_, ?_, h.sent⟩
    · rw [hc]
      exact LocalDraft.ownedBy_carry hv
    · rw [hc]
      exact LocalDraft.shows_carry_iff.2 hv
  · have hc : (p.switchTo string props).content = .hydrated props.key
        (mdText ((p.rulesets props.key).map (·.mdContent))) := if_neg hdep
    refine ⟨rfl, ?_, ?_, h.sent⟩
    · rw [hc]
      exact LocalDraft.ownedBy_hydrated _ _
    · rw [hc]
      exact LocalDraft.shows_hydrated _ _

theorem view_setView_self (view : RuleSetView) : (p.setView p.key view).view = some view :=
  if_pos rfl

theorem view_setView_of_ne {key : String} (h : key ≠ p.key) (view : RuleSetView) :
    (p.setView key view).view = p.view := if_neg h.symm

theorem receive_self (view : RuleSetView) : p.receive string p.key view =
    (p.setView p.key view).contentEffect.policyEffect string := if_pos rfl

theorem receive_of_ne {key : String} (h : key ≠ p.key) (view : RuleSetView) :
    p.receive string key view = p.setView key view := if_neg h

theorem key_receive (key : String) (view : RuleSetView) :
    (p.receive string key view).key = p.key := by
  rw [receive]
  split_ifs <;> rfl

theorem view_receive_self (view : RuleSetView) :
    (p.receive string p.key view).view = some view := by
  rw [receive_self]
  show (p.setView p.key view).view = some view
  exact view_setView_self view

/-- What a view of the ruleset that is shown leaves of the text. -/
theorem content_receive_self (view : RuleSetView) : (p.receive string p.key view).content =
    if some view.mdContent = p.contentDep then p.content
    else .hydrated p.key (mdText (some view.mdContent)) := by
  rw [receive_self]
  show (contentEffect (p.setView p.key view)).content = _
  rw [contentEffect, view_setView_self]
  rfl

theorem ContentInv.receive (h : p.ContentInv) (key : String) (view : RuleSetView) :
    (p.receive string key view).ContentInv := by
  by_cases hkey : key = p.key
  · subst hkey
    have hnew : (p.receive string p.key view).newestText = mdText (some view.mdContent) := by
      rw [newestText, view_receive_self]
      rfl
    refine ⟨by rw [receive_self]; rfl, ?_, ?_, by rw [receive_self]; exact h.sent⟩
    · rw [key_receive, content_receive_self]
      split_ifs
      · exact h.own
      · exact LocalDraft.ownedBy_hydrated _ _
    · rw [hnew, content_receive_self]
      split_ifs with hdep
      · rw [hdep, h.dep]
        exact h.shows
      · exact LocalDraft.shows_hydrated _ _
  · rw [receive_of_ne hkey]
    have hview := view_setView_of_ne hkey view
    refine ⟨hview ▸ h.dep, h.own, ?_, h.sent⟩
    rw [newestText, hview]
    exact h.shows

theorem contentInv_step (h : p.ContentInv) (ht : p.InTurn a)
    (hs : step number string p a = some p') : p'.ContentInv := by
  cases a with
  | mount props rulesets =>
    cases hs
    exact contentInv_mounted h.sent
  | switchTo props =>
    obtain ⟨-, ⟨⟩⟩ := Option.ite_none_left_eq_some.1 hs
    exact h.switchTo ht
  | receive key view =>
    cases hs
    exact h.receive key view
  | typeContent text =>
    obtain ⟨-, ⟨⟩⟩ := Option.ite_none_right_eq_some.1 hs
    exact ⟨h.dep, h.own.edit, LocalDraft.shows_edit, h.sent⟩
  | editField f value =>
    obtain ⟨-, ⟨⟩⟩ := Option.ite_none_right_eq_some.1 hs
    exact ⟨h.dep, h.own, h.shows, h.sent⟩
  | saveContent =>
    obtain ⟨-, ⟨⟩⟩ := Option.ite_none_right_eq_some.1 hs
    exact ⟨h.dep, h.own, h.shows, forall_sent_concat h.sent fun _ => h.own⟩
  | recreate =>
    obtain ⟨-, ⟨⟩⟩ := Option.ite_none_right_eq_some.1 hs
    exact ⟨h.dep, h.own, h.shows, forall_sent_concat h.sent fun _ => nofun⟩
  | savePolicy =>
    obtain ⟨-, ⟨⟩⟩ := Option.ite_none_right_eq_some.1 hs
    obtain ⟨_, _, hp, rfl | ⟨_, rfl⟩⟩ := handleSavePolicy_eq number p
    · rw [hp]
      exact ⟨h.dep, h.own, h.shows, h.sent⟩
    · rw [hp]
      refine ⟨h.dep, h.own, h.shows, forall_sent_concat h.sent ?_⟩
      nofun

/-- In turn or not, only the user's own steps and a view of the ruleset that is shown touch the
text. -/
theorem content_kept (ha : ∀ view, a ≠ .receive p.key view) (hl : a.leaves = false)
    (hty : a.typesContent = false) (hs : step number string p a = some p') :
    p'.key = p.key ∧ p'.content = p.content := by
  cases a with
  | mount props rulesets => cases hl
  | switchTo props => cases hl
  | receive key view =>
    cases hs
    have hkey : key ≠ p.key := fun hkey => ha view (hkey ▸ rfl)
    rw [receive_of_ne hkey]
    exact ⟨rfl, rfl⟩
  | typeContent text => cases hty
  | editField f value =>
    obtain ⟨-, ⟨⟩⟩ := Option.ite_none_right_eq_some.1 hs
    exact ⟨rfl, rfl⟩
  | saveContent =>
    obtain ⟨-, ⟨⟩⟩ := Option.ite_none_right_eq_some.1 hs
    exact ⟨rfl, rfl⟩
  | recreate =>
    obtain ⟨-, ⟨⟩⟩ := Option.ite_none_right_eq_some.1 hs
    exact ⟨rfl, rfl⟩
  | savePolicy =>
    obtain ⟨-, ⟨⟩⟩ := Option.ite_none_right_eq_some.1 hs
    obtain ⟨_, _, hp, -⟩ := handleSavePolicy_eq number p
    rw [hp]
    exact ⟨rfl, rfl⟩

theorem inTurn_of_keepsContent (h : p.KeepsContent number string a)
    (hs : step number string p a = some p') : p.InTurn a := by
  obtain ⟨-, hshows, hkept⟩ := h p' hs
  cases a with
  | switchTo props =>
    intro hdep
    obtain ⟨-, ⟨⟩⟩ := Option.ite_none_left_eq_some.1 hs
    have hc : (p.switchTo string props).content = p.content.carry props.key
        (mdText ((p.rulesets props.key).map (·.mdContent))) := if_pos hdep
    rw [hc] at hshows
    rw [← hdep]
    exact LocalDraft.shows_carry_iff.1 hshows
  | receive key view =>
    rintro rfl hdep
    cases hs
    by_cases hv : p.content.value = mdText p.contentDep
    · exact .inl hv
    · have hsame := (hkept hv rfl rfl).2
      rw [content_receive_self, if_neg (fun h => hdep h)] at hsame
      exact .inr hsame.symm
  | _ => trivial

theorem keepsContent_iff (h : p.ContentInv) (hs : step number string p a = some p') :
    p.KeepsContent number string a ↔ p.InTurn a := by
  refine ⟨fun hk => inTurn_of_keepsContent hk hs, fun ht q hq => ?_⟩
  have hinv := contentInv_step h ht hq
  refine ⟨hinv.sent, hinv.shows, fun hv hl hty => ?_⟩
  by_cases ha : ∃ view, a = .receive p.key view
  · obtain ⟨view, rfl⟩ := ha
    cases hq
    refine ⟨key_receive _ _, ?_⟩
    rw [content_receive_self]
    split_ifs with hdep
    · rfl
    · rcases ht rfl hdep with hv' | hv'
      · exact absurd hv' hv
      · exact hv'.symm
  · obtain ⟨hkey, hc⟩ := content_kept (fun view hview => ha ⟨view, hview⟩) hl hty hq
    exact ⟨hkey, congrArg LocalDraft.value hc⟩

/-! ### The policy's fields -/

/-- The effect hydrates every field with the newest policy, or keeps it. -/
theorem policyInv_policyEffect
    (h : p.hydratedRef.identity = p.key → ∀ f, (p.policy f).OwnedBy p.key ∧
      (p.policy f).Shows (p.hydratedRef.values f))
    (hsent : ∀ s ∈ p.sent, s.policy.isSome → s.Own) : (p.policyEffect string).PolicyInv string :=
  ⟨rfl, rfl, fun f => LocalDraft.OwnedBy.hydrate fun hk => (h hk f).1,
    fun f => LocalDraft.Shows.hydrate fun hk => (h hk f).2, hsent⟩

theorem PolicyInv.receive (h : p.PolicyInv string) (key : String) (view : RuleSetView) :
    (p.receive string key view).PolicyInv string := by
  by_cases hkey : key = p.key
  · subst hkey
    rw [receive_self]
    refine policyInv_policyEffect (fun _ f => ⟨h.own f, ?_⟩) h.sent
    show (p.policy f).Shows (p.hydratedRef.values f)
    rw [h.values]
    exact h.shows f
  · rw [receive_of_ne hkey]
    have hview : ∀ f, (p.setView key view).newestField string f = p.newestField string f :=
      fun f => congrArg (fun v => f.next string (Option.map _ v)) (view_setView_of_ne hkey view)
    refine ⟨h.identity, h.values.trans (funext fun f => (hview f).symm), h.own, fun f => ?_, h.sent⟩
    rw [hview]
    exact h.shows f

theorem PolicyInv.editField (h : p.PolicyInv string) (f : PolicyField) (value : f.Value)
    (g : PolicyField) :
    (if hfg : f = g then (p.policy g).edit p.key (hfg ▸ value) else p.policy g).OwnedBy p.key ∧
    (if hfg : f = g then (p.policy g).edit p.key (hfg ▸ value) else p.policy g).Shows
      (p.newestField string g) := by
  split_ifs
  · exact ⟨(h.own g).edit, LocalDraft.shows_edit⟩
  · exact ⟨h.own g, h.shows g⟩

theorem policyInv_step (h : p.PolicyInv string) (hs : step number string p a = some p') :
    p'.PolicyInv string := by
  cases a with
  | mount props rulesets =>
    cases hs
    exact policyInv_mounted h.sent
  | switchTo props =>
    obtain ⟨hkey, ⟨⟩⟩ := Option.ite_none_left_eq_some.1 hs
    refine policyInv_policyEffect (fun hk => absurd ?_ hkey) h.sent
    exact hk.symm.trans h.identity
  | receive key view =>
    cases hs
    exact h.receive key view
  | editField f value =>
    obtain ⟨-, ⟨⟩⟩ := Option.ite_none_right_eq_some.1 hs
    exact ⟨h.identity, h.values, fun g => (h.editField f value g).1,
      fun g => (h.editField f value g).2, h.sent⟩
  | typeContent text =>
    obtain ⟨-, ⟨⟩⟩ := Option.ite_none_right_eq_some.1 hs
    exact ⟨h.identity, h.values, h.own, h.shows, h.sent⟩
  | saveContent =>
    obtain ⟨-, ⟨⟩⟩ := Option.ite_none_right_eq_some.1 hs
    refine ⟨h.identity, h.values, h.own, h.shows, forall_sent_concat h.sent ?_⟩
    nofun
  | recreate =>
    obtain ⟨-, ⟨⟩⟩ := Option.ite_none_right_eq_some.1 hs
    refine ⟨h.identity, h.values, h.own, h.shows, forall_sent_concat h.sent ?_⟩
    nofun
  | savePolicy =>
    obtain ⟨-, ⟨⟩⟩ := Option.ite_none_right_eq_some.1 hs
    obtain ⟨_, _, hp, rfl | ⟨_, rfl⟩⟩ := handleSavePolicy_eq number p
    · rw [hp]
      exact ⟨h.identity, h.values, h.own, h.shows, h.sent⟩
    · rw [hp]
      exact ⟨h.identity, h.values, h.own, h.shows,
        forall_sent_concat h.sent fun _ => policyOrigins_own h.own⟩

/-- A field that differs from what it was last hydrated with changes only by the user's steps. -/
theorem policy_kept (h : p.PolicyInv string) {f : PolicyField}
    (hf : (p.policy f).value ≠ p.hydratedRef.values f) (hl : a.leaves = false)
    (he : a.edits f = false) (hs : step number string p a = some p') :
    p'.key = p.key ∧ p'.policy f = p.policy f := by
  cases a with
  | mount props rulesets => cases hl
  | switchTo props => cases hl
  | receive key view =>
    cases hs
    refine ⟨key_receive key view, ?_⟩
    by_cases hkey : key = p.key
    · subst hkey
      rw [receive_self]
      exact LocalDraft.hydrate_of_edited h.identity hf
    · rw [receive_of_ne hkey]
      rfl
  | editField g value =>
    obtain ⟨-, ⟨⟩⟩ := Option.ite_none_right_eq_some.1 hs
    exact ⟨rfl, dif_neg (of_decide_eq_false he)⟩
  | typeContent text =>
    obtain ⟨-, ⟨⟩⟩ := Option.ite_none_right_eq_some.1 hs
    exact ⟨rfl, rfl⟩
  | saveContent =>
    obtain ⟨-, ⟨⟩⟩ := Option.ite_none_right_eq_some.1 hs
    exact ⟨rfl, rfl⟩
  | recreate =>
    obtain ⟨-, ⟨⟩⟩ := Option.ite_none_right_eq_some.1 hs
    exact ⟨rfl, rfl⟩
  | savePolicy =>
    obtain ⟨-, ⟨⟩⟩ := Option.ite_none_right_eq_some.1 hs
    obtain ⟨_, _, hp, -⟩ := handleSavePolicy_eq number p
    rw [hp]
    exact ⟨rfl, rfl⟩

theorem keepsPolicy (h : p.PolicyInv string) : p.KeepsPolicy number string a := by
  intro q hq
  have hinv := policyInv_step h hq
  refine ⟨hinv.sent, fun f => ⟨hinv.shows f, fun hf hl he => ?_⟩⟩
  obtain ⟨hkey, hp⟩ := policy_kept h hf hl he hq
  exact ⟨hkey, congrArg LocalDraft.value hp⟩

/-! ### Runs -/

theorem content_kept_iff (number : String → F64) (string : F64 → String) (props : RulesetProps)
    (rulesets : String → Option RuleSetView) (as : List RulesetAction) :
    Runs.Along (step number string) (KeepsContent number string)
      (mounted string props rulesets []) as ↔
    Runs.Along (step number string) InTurn (mounted string props rulesets []) as :=
  Runs.along_iff (I := ContentInv) (fun _ _ _ => contentInv_step) (fun _ _ _ => keepsContent_iff)
    (contentInv_mounted fun _ h => absurd h List.not_mem_nil) as

theorem policy_always_kept (number : String → F64) (string : F64 → String) (props : RulesetProps)
    (rulesets : String → Option RuleSetView) (as : List RulesetAction) :
    Runs.Along (step number string) (KeepsPolicy number string)
      (mounted string props rulesets []) as :=
  Runs.along_of_keeps (I := PolicyInv string)
    (fun _ _ _ h hs => ⟨policyInv_step h hs, keepsPolicy h⟩)
    (policyInv_mounted fun _ h => absurd h List.not_mem_nil) as

end RulesetPanel

end BuilderPro
