import Mathlib.Tactic.Common

/-!
# Local drafts

A form holds a local copy of a part of a shared document: it is edited in place while newer views of
the document arrive and other documents are selected.  A draft carries the documents that its text
comes from and whether it was edited, so that what may become of it can be stated.
-/

/-- A draft of a part of a document of `κ`. -/
structure LocalDraft (κ α : Type*) where
  value : α
  /-- The documents whose views the value was hydrated from and those it was edited under. -/
  origins : List κ
  /-- Edited since its document was selected and since it was last hydrated. -/
  edited : Bool
  deriving DecidableEq

namespace LocalDraft

variable {κ α : Type*}

def hydrated (k : κ) (value : α) : LocalDraft κ α := ⟨value, [k], false⟩

variable (d : LocalDraft κ α)

/-- The user edits the draft while `k` is selected. -/
def edit (k : κ) (value : α) : LocalDraft κ α := ⟨value, k :: d.origins, true⟩

variable [DecidableEq α]

/-- `k` is selected and the draft stays.  A value that is the one of `k` counts as hydrated from
it. -/
def carry (k : κ) (own : α) : LocalDraft κ α :=
  if d.value = own then hydrated k own else { d with edited := false }

/-- A view is taken over unless the last one was of the same document and the draft differs from
it. -/
def hydrate (same : Prop) [Decidable same] (baseline : α) (k : κ) (next : α) : LocalDraft κ α :=
  if same then
    if d.value = baseline then hydrated k next else d
  else hydrated k next

/-- All of the draft's text comes from `k`. -/
def OwnedBy (k : κ) : Prop := ∀ o ∈ d.origins, o = k

/-- Unless it was edited, the draft is what `newest` says. -/
def Shows (newest : α) : Prop := d.edited = false → d.value = newest

omit [DecidableEq α] in
@[simp] theorem hydrated_value (k : κ) (v : α) : (hydrated k v).value = v := rfl

omit [DecidableEq α] in
theorem ownedBy_hydrated (k : κ) (v : α) : (hydrated k v).OwnedBy k := fun _ ho => by
  rwa [hydrated, List.mem_singleton] at ho

omit [DecidableEq α] in
theorem shows_hydrated (k : κ) (v : α) : (hydrated k v).Shows v := fun _ => rfl

variable {d} {k : κ} {v next : α}

omit [DecidableEq α] in
theorem OwnedBy.edit (h : d.OwnedBy k) : (d.edit k v).OwnedBy k := by
  intro o ho
  rcases List.mem_cons.1 ho with rfl | ho
  · rfl
  · exact h o ho

omit [DecidableEq α] in
theorem shows_edit : (d.edit k v).Shows next := nofun

@[simp] theorem carry_value : (d.carry k v).value = d.value := by
  rw [carry]
  split_ifs with h
  · exact h.symm
  · rfl

theorem ownedBy_carry (h : d.value = v) : (d.carry k v).OwnedBy k := by
  rw [carry, if_pos h]
  exact ownedBy_hydrated k v

theorem shows_carry_iff : (d.carry k v).Shows v ↔ d.value = v := by
  rw [carry]
  split_ifs with h
  · exact iff_of_true (shows_hydrated k v) h
  · exact ⟨fun hd => hd rfl, fun hd => absurd hd h⟩

variable {same : Prop} [Decidable same] {baseline : α}

theorem hydrate_of_not_same (h : ¬same) : d.hydrate same baseline k next = hydrated k next :=
  if_neg h

theorem hydrate_of_edited (hs : same) (h : d.value ≠ baseline) :
    d.hydrate same baseline k next = d := by
  rw [hydrate, if_pos hs, if_neg h]

theorem OwnedBy.hydrate (h : same → d.OwnedBy k) : (d.hydrate same baseline k next).OwnedBy k := by
  rw [LocalDraft.hydrate]
  split_ifs with hs
  · exact ownedBy_hydrated k next
  · exact h hs
  · exact ownedBy_hydrated k next

theorem Shows.hydrate (h : same → d.Shows baseline) :
    (d.hydrate same baseline k next).Shows next := by
  rw [LocalDraft.hydrate]
  split_ifs with hs hv
  · exact shows_hydrated k next
  · exact fun he => absurd (h hs he) hv
  · exact shows_hydrated k next

end LocalDraft
