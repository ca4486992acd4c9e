import BuilderPro.App.WorkflowEdits

/-!
# The workflow editor

A draft that the library opens can be saved once the editor's own check lets it through, its name is
short enough and its default agent is known (`save_accepted_iff`), and what has been saved is what is
opened next (`reopen_saved`).
-/

namespace BuilderPro

open Results

/-- The fields of a stored definition. -/
def Workflow.fields (w : Workflow) : WorkflowFields :=
  ⟨w.name, w.description, w.scope, w.projectId, w.defaultAgent, w.stages, w.globalSkillIds,
    w.supervisor⟩

section Opened

variable (host : Host) (parse : String → Option Workflow) (files : Files)

/-- The row of a workflow whose file, if it can be read, holds a definition the daemon has
accepted. -/
structure WorkflowRow.Intact (row : WorkflowRow) : Prop where
  file : ∀ content wf, files row.jsonPath = .file content → parse content = some wf →
    validateWorkflow wf.fields = .ok ()
  projectId : row.scope = .global → row.projectId = none

/-- The drafts behind the library's buttons. -/
inductive Opened : WorkflowDraft → Prop
  | new : Opened blankDraft
  | existing {row : WorkflowRow} (h : row.Intact parse files) :
    Opened (draftFromWorkflow (buildWorkflow host parse files row).workflow)
  | duplicate {row : WorkflowRow} (h : row.Intact parse files) :
    Opened (draftFromDuplicate (buildWorkflow host parse files row).workflow)

variable {host parse files} {d : WorkflowDraft}

theorem sound_draftFromWorkflow {row : WorkflowRow} (h : row.Intact parse files) :
    (draftFromWorkflow (buildWorkflow host parse files row).workflow).Sound := by
  have hgone : (draftFromWorkflow ⟨row.id, row.name, "", row.scope, row.projectId, "", [], [],
      .default, row.jsonPath, row.createdAt, row.updatedAt⟩).Sound :=
    ⟨nofun, List.nodup_nil, List.not_mem_nil, List.not_mem_nil, List.not_mem_nil, h.projectId⟩
  unfold buildWorkflow
  rcases hfile : files row.jsonPath with _ | content
  · exact hgone
  · simp only []
    rcases hparse : parse content with _ | wf
    · exact hgone
    · have hwf := h.file content wf hfile hparse
      rw [validateWorkflow_eq_ok, validateStages_eq_ok, validateSupervisor_eq_ok] at hwf
      obtain ⟨-, -, -, -, -, ⟨hstages, hnodup, -⟩, hglobal, hclasses, hrules, -⟩ := hwf
      exact ⟨fun stage hs => (hstages stage hs).1, hnodup, hglobal, hclasses, hrules, h.projectId⟩
  · exact hgone

theorem Opened.sound (h : Opened host parse files d) : d.Sound := by
  cases h with
  | new =>
    exact ⟨nofun, List.nodup_nil, List.not_mem_nil, List.not_mem_nil, List.not_mem_nil,
      fun _ => rfl⟩
  | existing h => exact sound_draftFromWorkflow h
  | @duplicate row h =>
    have : (draftFromWorkflow (buildWorkflow host parse files row).workflow).Sound :=
      sound_draftFromWorkflow h
    exact ⟨this.stages, this.nodup, this.globalSkillIds, this.delegatedClasses, this.customRules,
      this.projectId⟩

end Opened

namespace Editor

variable {host : Host} {parse : String → Option Workflow} {files : Files} {d : WorkflowDraft}
  {skills : List String} {s : Editor} {as : List EditorEvent}

/-- Whatever the editor is asked to do, its draft stays one the daemon has little to say about. -/
theorem run_sound (hd : d.Sound) (hskills : "" ∉ skills)
    (has : Runs.Along step Promised (start d skills) as)
    (h : Runs.run step (start d skills) as = some s) : s.draft.Sound :=
  (has.keeps (I := fun s => s.draft.Sound ∧ "" ∉ s.skills)
    (fun _ _ _ hs ha hu => step_sound hs.1 hs.2 ha hu) ⟨hd, hskills⟩ h).1

/-- Along every run of the editor, a draft that passes the editor's check passes the daemon's, up to
two things: the name is too long, or the workflow was opened with a default agent that is not known,
as one whose file is gone has, and none has been picked. -/
theorem save_accepted_iff (hd : Opened host parse files d) (hskills : "" ∉ skills)
    (has : Runs.Along step Promised (start d skills) as)
    (h : Runs.run step (start d skills) as = some s) (hv : s.draft.validateWorkflow = none) :
    validateWorkflow s.draft.request = .ok () ↔
      s.draft.name.utf8ByteSize ≤ workflowNameMaxLen
        ∧ (d.defaultAgent ∈ knownAgents ∨ ∃ agent, .edit (.defaultAgent agent) ∈ as) := by
  have hs := run_sound hd.sound hskills has h
  have ne_empty : ∀ {v : String}, jsTrim v ≠ "" → v ≠ "" := by
    rintro v hne rfl
    exact hne jsTrim_empty
  obtain ⟨hname, hproject, hstages, hall, hceo⟩ := WorkflowDraft.validateWorkflow_eq_none.1 hv
  have hagent := run_defaultAgent h
  rw [start] at hagent
  rw [WorkflowDraft.validateWorkflow_request, ← hagent]
  refine and_iff_right ⟨ne_empty hname, hproject, hstages, fun stage hmem => ?_, hs.nodup,
    hs.globalSkillIds, validateSupervisor_eq_ok.2 ⟨hs.delegatedClasses, hs.customRules, hceo⟩⟩
  obtain ⟨hsname, hsprompt⟩ := hall stage hmem
  exact ⟨hs.stages stage hmem, ne_empty hsname, ne_empty hsprompt⟩

/-- A new workflow, written from scratch. -/
def review : List EditorEvent := [.edit (.name "Review"), .addStage "1", .editStage (.name "Read"),
  .editStage (.prompt "Read the diff.")]

def reviewDraft : WorkflowDraft :=
  { blankDraft with
    name := "Review"
    stages := [⟨"stage-1", "Read", "Read the diff.", [], none, .inherit, [], .auto⟩] }

def reviewEditor : Editor := ⟨reviewDraft, some 0, none, none, []⟩

theorem review_accepted : Runs.run step (start blankDraft []) review = some reviewEditor
    ∧ (validateWorkflow reviewDraft.request = .ok () ↔
      reviewDraft.name.utf8ByteSize ≤ workflowNameMaxLen
        ∧ (blankDraft.defaultAgent ∈ knownAgents
          ∨ ∃ agent, .edit (.defaultAgent agent) ∈ review)) := by
  have hrun : Runs.run step (start blankDraft []) review = some reviewEditor := by decide
  have hnew : Opened Orchd.plainHost (fun _ => none) (fun _ => .missing) blankDraft := .new
  exact ⟨hrun, save_accepted_iff hnew List.not_mem_nil (by decide) hrun (by decide)⟩

end Editor

/-! ### What has been saved is what is opened -/

namespace Orchd

variable {host : Host} {o o' : Orchd} {existing : Option WorkflowRow} {w : Workflow}

/-- The file of a definition is written, and the file it has moved from is another one. -/
theorem writeWorkflow_file {files : Files} {hash : String}
    (h : o.writeWorkflow host existing w = .ok (files, hash)) :
    files w.jsonPath = .file (host.workflowJson w)
      ∧ hash = host.sha256Hex (host.workflowJson w) := by
  simp only [writeWorkflow, ioError, Files.writeAtomic, bind_eq_ok, mapError_eq_ok, pure_eq_ok] at h
  obtain ⟨_, ⟨-, -, rfl⟩, h⟩ := h
  have hput : ∀ fs : Files, (fs.put w.jsonPath (.file (host.workflowJson w))) w.jsonPath
      = .file (host.workflowJson w) := fun fs => if_pos rfl
  have htmp : (o.files.put w.jsonPath.tmpPathFor (.file (host.workflowJson w)))
      w.jsonPath.tmpPathFor = .file (host.workflowJson w) := if_pos rfl
  rw [htmp] at h
  rcases existing with _ | old
  · cases h
    exact ⟨hput _, rfl⟩
  · simp only [] at h
    split_ifs at h with hpath
    · cases h
      exact ⟨hput _, rfl⟩
    · simp only [bind_eq_ok, mapError_eq_ok, pure_eq_ok, Files.removeIfExists] at h
      obtain ⟨gone, hgone, h⟩ := h
      cases h
      refine ⟨?_, rfl⟩
      split at hgone
      · cases hgone
        exact hput _
      · simp only [bind_eq_ok, pure_eq_ok] at hgone
        obtain ⟨-, -, rfl⟩ := hgone
        rw [Files.put, if_neg (Ne.symm hpath)]
        exact hput _

/-- The row that is stored is the one asked for, but for the time it was created. -/
theorem storeWorkflow_row {s t : Store} {x row : WorkflowRow}
    (h : storeWorkflow s x = .ok (t, row)) : ∃ createdAt, row = { x with createdAt } := by
  unfold storeWorkflow at h
  split at h
  · rename_i old _
    cases h
    exact ⟨old.createdAt, rfl⟩
  · simp only [map_eq_ok, Prod.mk.injEq] at h
    obtain ⟨-, -, -, rfl⟩ := h
    exact ⟨x.createdAt, rfl⟩

end Orchd

/-- In the global scope a sound draft has no project to lose. -/
theorem WorkflowDraft.Sound.effectiveProjectId {d : WorkflowDraft} (h : d.Sound) :
    d.request.effectiveProjectId = d.projectId := by
  have hp := h.projectId
  unfold WorkflowFields.effectiveProjectId request
  revert hp
  cases d.scope <;> simp
  exact Eq.symm

namespace Editor

variable {host : Host} {parse : String → Option Workflow} {files : Files} {d : WorkflowDraft}
  {skills : List String} {s : Editor} {as : List EditorEvent}

/-- Once the daemon has stored what an editor's run has made of a draft, opening it gives that draft
back, under the id of its row. -/
theorem reopen_saved (hd : Opened host parse files d) (hskills : "" ∉ skills)
    (has : Runs.Along step Promised (start d skills) as)
    (h : Runs.run step (start d skills) as = some s) {o o' : Orchd}
    {existing : Option WorkflowRow} {row : WorkflowRow} {w : Workflow} {newId : String} {now : ℤ}
    (hexisting : Orchd.existingWorkflow o.db s.draft.id = .ok existing)
    (hw : w = Orchd.workflowToWrite host existing (Orchd.workflowId s.draft.id newId)
      s.draft.request now)
    (hparse : parse (host.workflowJson w) = some w)
    (hup : o.upsertWorkflow host s.draft.id s.draft.request newId now = .ok (o', row)) :
    (buildWorkflow host parse o'.files row).fileState = .present
      ∧ draftFromWorkflow (buildWorkflow host parse o'.files row).workflow
        = { s.draft with id := row.id } := by
  have hs := run_sound hd.sound hskills has h
  simp only [Orchd.upsertWorkflow, hexisting, bind_eq_ok, pure_eq_ok, Except.ok.injEq] at hup
  obtain ⟨-, -, -, -, _, rfl, ⟨files', hash⟩, hfiles, ⟨t, row'⟩, hrow, hup⟩ := hup
  cases hup
  rw [← hw] at hfiles hrow
  obtain ⟨hfile, rfl⟩ := Orchd.writeWorkflow_file hfiles
  obtain ⟨createdAt, rfl⟩ := Orchd.storeWorkflow_row hrow
  have hview : buildWorkflow host parse files' ⟨w.id, w.scope, w.projectId, w.name, w.jsonPath,
      host.sha256Hex (host.workflowJson w), createdAt, w.updatedAt⟩
        = ⟨{ w with createdAt }, .present⟩ := by
    simp only [buildWorkflow, hfile, hparse, if_true]
  rw [hview, hw]
  refine ⟨rfl, ?_⟩
  simp only [draftFromWorkflow, Orchd.workflowToWrite, hs.effectiveProjectId]
  rfl

/-- The definition the daemon writes for the new workflow. -/
def reviewWorkflow : Workflow :=
  Orchd.workflowToWrite Orchd.plainHost none "w1" reviewDraft.request 1

def reviewJson : String :=
  "\x7b\n  \"id\": \"w1\",\n  \"name\": \"Review\",\n  \"description\": \"\",\n"
    ++ "  \"scope\": \"global\",\n  \"projectId\": null,\n"
    ++ "  \"defaultAgent\": \"claude-code\",\n  \"stages\": [\n    \x7b\n"
    ++ "      \"id\": \"stage-1\",\n      \"name\": \"Read\",\n"
    ++ "      \"prompt\": \"Read the diff.\",\n      \"skillIds\": [],\n"
    ++ "      \"agent\": null,\n      \"contextScope\": \"inherit\",\n"
    ++ "      \"outputs\": [],\n      \"gate\": \"auto\"\n    \x7d\n  ],\n"
    ++ "  \"globalSkillIds\": [],\n  \"supervisor\": \x7b\n    \"enabled\": false,\n"
    ++ "    \"delegatedClasses\": [],\n    \"instruction\": \"\",\n"
    ++ "    \"customRules\": []\n  \x7d,\n  \"fileState\": \"present\",\n"
    ++ "  \"jsonPath\": \"/app/rules/workflows/global/w1.json\",\n  \"hash\": \"\",\n"
    ++ "  \"createdAt\": 1,\n  \"updatedAt\": 1\n\x7d"

def reviewHost : Host := { Orchd.plainHost with workflowJson := fun _ => reviewJson }

def reviewParse (content : String) : Option Workflow :=
  if content = reviewJson then some reviewWorkflow else none

theorem review_reopened : ∃ o' row,
    Orchd.fresh.upsertWorkflow reviewHost "" reviewDraft.request "w1" 1 = .ok (o', row)
      ∧ (buildWorkflow reviewHost reviewParse o'.files row).fileState = .present
      ∧ draftFromWorkflow (buildWorkflow reviewHost reviewParse o'.files row).workflow
        = { reviewDraft with id := row.id } := by
  have hrun : Runs.run step (start blankDraft []) review = some reviewEditor := by decide
  obtain ⟨⟨o', row⟩, hup⟩ : ∃ r,
      Orchd.fresh.upsertWorkflow reviewHost "" reviewDraft.request "w1" 1 = .ok r := ⟨_, rfl⟩
  have hparse : reviewParse (reviewHost.workflowJson reviewWorkflow) = some reviewWorkflow :=
    if_pos rfl
  exact ⟨o', row, hup, reopen_saved (.new : Opened _ reviewParse (fun _ => .missing) _)
    List.not_mem_nil (by decide) hrun rfl rfl hparse hup⟩

end Editor

end BuilderPro
