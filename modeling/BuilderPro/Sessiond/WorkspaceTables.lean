import BuilderPro.Sessiond.WorkspaceCalls

/-!
# The roots after any calls

After any calls each workspace has its roots numbered from 0, none twice, and mirrors the first; the
roots that no call removes or writes anew keep their order (`roots_invariant`), while an upsert may
put them in another (`upsert_reorders`).
-/

namespace BuilderPro

/-- The roots a call leaves, where it is accepted. -/
def DbCall.onRoots (R : String → List String) : DbCall → String → List String
  | .upsertWorkspace id _ roots => fun k => if k = id then roots else R k
  | .addWorkspaceRoot w p => fun k => if k = w ∧ p ∉ R w then R k ++ [p] else R k
  | .removeWorkspaceRoot w p => fun k => if k = w then (R k).filter (· ≠ p) else R k
  | .deleteWorkspace w => fun k => if k = w then [] else R k
  | _ => R

/-- The roots given to an upsert are distinct. -/
def DbCall.Distinct : DbCall → Prop
  | .upsertWorkspace _ _ roots => roots.Nodup
  | _ => True

/-- Whether a call is there to take a root away, or to put a new list in the place of the old. -/
def DbCall.takes (w p : String) : DbCall → Bool
  | .upsertWorkspace id _ _ => id = w
  | .removeWorkspaceRoot id q => id = w ∧ q = p
  | .deleteWorkspace id => id = w
  | _ => false

namespace WorkspaceDb

variable {db : WorkspaceDb} {c : DbCall} {cs : List DbCall} {w : String}

/-- No accepted call of a run takes this root away. -/
def survives (w p : String) (db : WorkspaceDb) : List DbCall → Bool
  | [] => true
  | c :: cs => !(((db.call c).1.isOk) && c.takes w p) && survives w p (db.call c).2 cs

theorem call_outcome (h : db.Inv) (hc : c.Distinct) :
    db.Outcome (c.onRoots db.rootPaths) (db.call c) := by
  cases c with
  | upsertWorkspace id name roots => exact upsertWorkspace_outcome h id name hc
  | addWorkspaceRoot w p => exact addWorkspaceRoot_outcome h w p
  | removeWorkspaceRoot w p => exact removeWorkspaceRoot_outcome h w p
  | deleteWorkspace w => exact deleteWorkspace_outcome h w
  | upsertSession m => exact upsertSession_outcome h m
  | appendScrollback id bytes => exact appendScrollback_outcome h id bytes
  | appendCommandEvent id ev => exact appendCommandEvent_outcome h id ev
  | deleteSession id => exact deleteSession_outcome h id

theorem inv_call (h : db.Inv) (hc : c.Distinct) : (db.call c).2.Inv := by
  rcases call_outcome h hc with ⟨e, he⟩ | ⟨-, hinv, -⟩
  · rwa [he]
  · exact hinv

theorem inv_calls (h : db.Inv) (hcs : ∀ c ∈ cs, c.Distinct) : (db.calls cs).Inv := by
  induction cs generalizing db with
  | nil => exact h
  | cons c cs ih =>
    exact ih (inv_call h (hcs c List.mem_cons_self)) fun c' hc' =>
      hcs c' (List.mem_cons_of_mem c hc')

/-- The roots an accepted call does not take keep their order. -/
theorem filter_sublist_onRoots (R : String → List String) (c : DbCall) (w : String) :
    ((R w).filter fun p => !c.takes w p).Sublist (c.onRoots R w) := by
  cases c with
  | upsertWorkspace id name roots =>
    by_cases h : w = id
    · simp [DbCall.takes, h]
    · simp [DbCall.takes, DbCall.onRoots, h, Ne.symm h]
  | addWorkspaceRoot id q =>
    simp only [DbCall.takes, DbCall.onRoots, Bool.not_false, List.filter_true]
    split_ifs
    · exact List.sublist_append_left _ _
    · exact List.Sublist.refl _
  | removeWorkspaceRoot id q =>
    by_cases h : w = id
    · subst h
      simp [DbCall.takes, DbCall.onRoots, eq_comm]
    · simp [DbCall.takes, DbCall.onRoots, h, Ne.symm h]
  | deleteWorkspace id =>
    by_cases h : w = id
    · simp [DbCall.takes, h]
    · simp [DbCall.takes, DbCall.onRoots, h, Ne.symm h]
  | upsertSession _ => exact List.filter_sublist
  | appendScrollback _ _ => exact List.filter_sublist
  | appendCommandEvent _ _ => exact List.filter_sublist
  | deleteSession _ => exact List.filter_sublist

theorem filter_sublist_call (h : db.Inv) (hc : c.Distinct) (w : String) :
    ((db.rootPaths w).filter fun p => !((db.call c).1.isOk && c.takes w p)).Sublist
      ((db.call c).2.rootPaths w) := by
  rcases call_outcome h hc with ⟨e, he⟩ | ⟨hok, -, hroots⟩
  · rw [he]
    exact List.filter_sublist
  · rw [hok, hroots]
    exact filter_sublist_onRoots db.rootPaths c w

theorem sublist_calls (h : db.Inv) (hcs : ∀ c ∈ cs, c.Distinct) (w : String) :
    ((db.rootPaths w).filter fun p => survives w p db cs).Sublist ((db.calls cs).rootPaths w) := by
  induction cs generalizing db with
  | nil => exact List.filter_sublist
  | cons c cs ih =>
    have hc := hcs c List.mem_cons_self
    have hrest := ih (inv_call h hc) fun c' hc' => hcs c' (List.mem_cons_of_mem c hc')
    simp only [survives, Bool.and_comm _ (survives w _ _ cs)]
    rw [← List.filter_filter]
    exact ((filter_sublist_call h hc w).filter _).trans hrest

theorem rejected_call (h : db.Inv) {e : PersistError} (he : (db.call c).1 = .error e) :
    (db.call c).2 = db := by
  by_cases hc : c.Distinct
  · rcases call_outcome h hc with ⟨e', he'⟩ | ⟨hok, -⟩
    · rw [he']
    · rw [hok] at he
      cases he
  · cases c with
    | upsertWorkspace id name roots =>
      rw [call] at he ⊢
      rcases hr : db.upsertWorkspace id name roots with e' | db'
      · rfl
      · rw [hr] at he
        cases he
    | _ => exact absurd trivial hc

/-- A deleted workspace leaves nothing behind. -/
structure Gone (db db' : WorkspaceDb) (w : String) : Prop where
  workspace : db'.workspaces.lookup w = none
  roots : ∀ r ∈ db'.roots.rows, r.workspaceId ≠ w
  sessions : ∀ r ∈ db'.sessions.rows, r.workspaceId ≠ w
  scrollback : ∀ s ∈ db.sessions.rows, s.workspaceId = w →
    ∀ r ∈ db'.scrollback.rows, r.sessionId ≠ s.id
  events : ∀ s ∈ db.sessions.rows, s.workspaceId = w →
    ∀ r ∈ db'.commandEvents.rows, r.sessionId ≠ s.id

theorem gone_deleteWorkspace (h : (db.call (.deleteWorkspace w)).1 = .ok ()) :
    Gone db (db.call (.deleteWorkspace w)).2 w := by
  have hmem : ∀ s ∈ db.sessions.rows, s.workspaceId = w → s.id ∈ db.sessionIds w := fun s hs hw =>
    mem_sessionIds.2 ⟨s, KeyedTable.mem_rows.1 hs, hw⟩
  rw [call, deleteWorkspace] at h ⊢
  rcases hw : db.workspaces.lookup w with _ | x
  · rw [hw] at h
    cases h
  refine ⟨?_, fun r hr => ?_, fun r hr => ?_, fun s hs hsw r hr => ?_, fun s hs hsw r hr => ?_⟩
  · show (db.workspaces.erase w).lookup w = none
    rw [KeyedTable.lookup_erase, if_pos rfl]
  · exact of_decide_eq_true (List.mem_filter.1 hr).2
  · exact of_decide_eq_true (List.mem_filter.1 hr).2
  · have hkept := (List.mem_filter.1 hr).2
    rintro heq
    simp [heq, hmem s hs hsw] at hkept
  · have hkept := (List.mem_filter.1 hr).2
    rintro heq
    simp [heq, hmem s hs hsw] at hkept

/-- The roots of a workspace are as its row and its numbers say. -/
structure RootsOk (db : WorkspaceDb) (x : WorkspaceRow) : Prop where
  ords : (db.rootRows x.id).map RootRow.ord = List.range (db.rootPaths x.id).length
  nodup : (db.rootPaths x.id).Nodup
  first : (db.rootPaths x.id).head? = some x.rootPath

theorem Inv.rootsOk (h : db.Inv) {x : WorkspaceRow} (hx : x ∈ db.workspaces.rows) :
    db.RootsOk x := by
  obtain ⟨ps, hroots, hnodup⟩ := h.roots x.id x (KeyedTable.mem_rows.1 hx)
  refine ⟨?_, ?_, ?_⟩
  · rw [hroots.rootRows, hroots.rootPaths, numbered_map_ord, List.range_eq_range']
  · rwa [hroots.rootPaths]
  · rw [hroots.rootPaths, List.head?_cons]

/-- Over every run from empty tables whose upserts are given distinct roots: each workspace has
roots, none twice, numbered from 0, and mirrors the first; a call that is rejected changes no row;
an upsert leaves the roots it is given and a delete leaves nothing; and over what follows, the
roots no accepted call takes away or writes anew keep their order. -/
theorem roots_invariant (cs : List DbCall) (hcs : ∀ c ∈ cs, c.Distinct) :
    (∀ x ∈ (empty.calls cs).workspaces.rows, (empty.calls cs).RootsOk x) ∧
    (∀ c e, ((empty.calls cs).call c).1 = .error e →
      ((empty.calls cs).call c).2 = empty.calls cs) ∧
    (∀ id name roots, roots.Nodup →
      ((empty.calls cs).call (.upsertWorkspace id name roots)).1 = .ok () →
      ((empty.calls cs).call (.upsertWorkspace id name roots)).2.rootPaths id = roots) ∧
    (∀ w, ((empty.calls cs).call (.deleteWorkspace w)).1 = .ok () →
      Gone (empty.calls cs) ((empty.calls cs).call (.deleteWorkspace w)).2 w) ∧
    ∀ cs' : List DbCall, (∀ c ∈ cs', c.Distinct) → ∀ w,
      (((empty.calls cs).rootPaths w).filter fun p => survives w p (empty.calls cs) cs').Sublist
        (((empty.calls cs).calls cs').rootPaths w) := by
  have h := inv_calls inv_empty hcs
  refine ⟨fun x => h.rootsOk, fun c e he => rejected_call h he, fun id name roots hroots hok => ?_,
    fun w => gone_deleteWorkspace, fun cs' hcs' w => sublist_calls h hcs' w⟩
  · rcases upsertWorkspace_outcome h id name hroots with ⟨e, he⟩ | ⟨-, -, hpaths⟩
    · rw [he] at hok
      cases hok
    · rw [hpaths]
      exact if_pos rfl

/-- A root added behind two, and the first taken away; then a root that is not there and a workspace
that is not. -/
def editRun : List DbCall :=
  [.upsertWorkspace "w" "work" ["/a", "/b"], .addWorkspaceRoot "w" "/c",
    .removeWorkspaceRoot "w" "/a", .removeWorkspaceRoot "w" "/a", .addWorkspaceRoot "v" "/c"]

theorem roots_invariant_editRun : (empty.calls editRun).rootPaths "w" = ["/b", "/c"] ∧
    ∀ x ∈ (empty.calls editRun).workspaces.rows, (empty.calls editRun).RootsOk x :=
  ⟨by decide +kernel, (roots_invariant editRun (by simp [editRun, DbCall.Distinct])).1⟩

/-- An upsert puts the same two roots the other way round: neither is removed, and they do not
keep their order. -/
theorem upsert_reorders :
    ((empty.calls [.upsertWorkspace "w" "work" ["/a", "/b"]]).call
        (.upsertWorkspace "w" "work" ["/b", "/a"])).1 = .ok () ∧
      (empty.calls [.upsertWorkspace "w" "work" ["/a", "/b"]]).rootPaths "w" = ["/a", "/b"] ∧
      (empty.calls [.upsertWorkspace "w" "work" ["/a", "/b"],
        .upsertWorkspace "w" "work" ["/b", "/a"]]).rootPaths "w" = ["/b", "/a"] := by
  decide +kernel

end WorkspaceDb

end BuilderPro
