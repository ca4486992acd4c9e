import BuilderPro.Lib.Runs
import BuilderPro.Orchd.CallSteps

/-!
# The attempts under a rate

The gate counts the attempts that have been written down, and not those on their way
(`phaseOne_ok`).  No step but a deletion takes the row of an attempt away (`keeps_step`).
-/

namespace BuilderPro

/-- Whether a job has been let through and is not over. -/
def Pc.inFlight : Pc → Bool
  | .admitted _ => true
  | .dialing => true
  | _ => false

/-- What a policy is for, and a rate it has. -/
structure RateSlot where
  slot : PolicyScope × Option String
  rate : ℤ

namespace Task

variable (k : RateSlot) (w : ℤ) (t : Task)

/-- Whether a task was let through under a policy when it had a rate. -/
def rated : Bool := t.under.any fun p => p.slot == k.slot && p.ratePerMin == some k.rate

def startedSince : Bool := t.startedAt.any fun u => w ≤ u

/-- Whether an attempt was started in a window. -/
def attemptIn : Bool := t.rated k && t.startedAt.any fun u => w ≤ u && u ≤ w + policyWindowMs

/-- Whether an attempt is over that was started since some time. -/
def doneSince : Bool := t.rated k && !t.pc.inFlight && t.startedSince w

/-- Whether an attempt was started since some time or is still to be started. -/
def occupies : Bool := t.rated k && ((t.pc.inFlight && t.startedAt.isNone) || t.startedSince w)

variable {k w t}

theorem not_rated_of_under (h : t.under = none) : t.rated k = false := by simp [rated, h]

/-- An attempt that occupies a window is over or on its way. -/
theorem occupies_imp (h : t.occupies k w = true) :
    t.doneSince k w = true ∨ (t.pc.inFlight && t.rated k) = true := by
  simp only [occupies, doneSince, Bool.and_eq_true, Bool.or_eq_true, Bool.not_eq_true'] at h ⊢
  rcases hf : t.pc.inFlight with _ | _
  · simp_all
  · exact .inr ⟨rfl, h.1⟩

theorem doneSince_of_le {w' : ℤ} (hw : w ≤ w') (h : t.doneSince k w' = true) :
    t.doneSince k w = true := by
  simp only [doneSince, startedSince, Bool.and_eq_true, Option.any_eq_true] at h ⊢
  obtain ⟨h, u, hu, hle⟩ := h
  exact ⟨h, u, hu, by simp at hle ⊢; omega⟩

theorem occupies_of_attemptIn (h : t.attemptIn k w = true) : t.occupies k w = true := by
  simp only [attemptIn, occupies, startedSince, Bool.and_eq_true, Bool.or_eq_true,
    Option.any_eq_true] at h ⊢
  obtain ⟨h, u, hu, hle, -⟩ := h
  exact ⟨h, .inr ⟨u, hu, hle⟩⟩

end Task

/-! ### Counting in a list one place of which is set -/

section Count

variable {α : Type} {p q r : α → Bool} {l : List α} {i : ℕ} {x y : α}

theorem countP_set_le (hi : l[i]? = some x) (h : p y = true → p x = true) :
    (l.set i y).countP p ≤ l.countP p := by
  obtain ⟨hlt, rfl⟩ := List.getElem?_eq_some_iff.1 hi
  have hx : (if p l[i] = true then 1 else 0) ≤ l.countP p := List.boole_getElem_le_countP hlt
  rw [List.countP_set hlt]
  split_ifs at hx ⊢ with hpx hpy hpy <;> first | omega | exact absurd (h hpy) hpx

theorem countP_set_le_succ (hi : l[i]? = some x) :
    (l.set i y).countP p ≤ l.countP p + 1 := by
  obtain ⟨hlt, rfl⟩ := List.getElem?_eq_some_iff.1 hi
  rw [List.countP_set hlt]
  split_ifs <;> omega

theorem countP_le_add (h : ∀ x ∈ l, p x = true → q x = true ∨ r x = true) :
    l.countP p ≤ l.countP q + l.countP r := by
  induction l with
  | nil => simp
  | cons x l ih =>
    have ih := ih fun y hy => h y (List.mem_cons_of_mem _ hy)
    have hx := h x List.mem_cons_self
    simp only [List.countP_cons]
    split_ifs <;> first | omega | simp_all

end Count

/-! ### What the gate has counted -/

namespace ExtStore

variable {host : ExtHost} {e : ExtStore} {projectId serverId : Option String} {p : Policy}
  {now : ℤ}

theorem lt_of_checkPolicyCaps {r : ℤ}
    (h : e.checkPolicyCaps host projectId serverId now = .allow)
    (hp : e.resolvePolicy projectId serverId = some p) (hr : p.ratePerMin = some r) :
    (e.countInvocationsSince p.scope p.refId (now - policyWindowMs) : ℤ) < r := by
  simp only [checkPolicyCaps, hp, hr, Option.any_some] at h
  split_ifs at h with hcount
  simpa using hcount

/-- A policy that is in force for a job is one for its server, for its project or for all. -/
theorem resolvePolicy_eq_some (h : e.resolvePolicy projectId serverId = some p) :
    (p.scope = .server ∧ p.refId = serverId ∧ serverId.isSome)
      ∨ (p.scope = .project ∧ p.refId = projectId ∧ projectId.isSome) ∨ p.scope = .global := by
  have hslot : ∀ {scope refId}, e.getPolicy scope refId = some p →
      p.scope = scope ∧ p.refId = refId := by
    intro scope refId hp
    have hslot : p.slot = (scope, refId) := KeyedTable.key_eq hp
    exact Prod.mk.inj hslot
  simp only [resolvePolicy, Option.orElse_eq_or, Option.or_eq_some_iff,
    Option.bind_eq_some_iff] at h
  rcases h with ⟨sid, rfl, hp⟩ | ⟨-, ⟨pid, rfl, hp⟩ | ⟨-, hp⟩⟩
  · exact .inl ⟨(hslot hp).1, (hslot hp).2, rfl⟩
  · exact .inr (.inl ⟨(hslot hp).1, (hslot hp).2, rfl⟩)
  · exact .inr (.inr (hslot hp).1)

end ExtStore

/-- Whether the rows of a job's attempts are among those a policy counts. -/
def Job.CountedBy (host : ExtHost) (job : Job) (p : Policy) : Prop :=
  job.policyRefs.isSome ∧ ∀ startedAt a row, job.invocation host startedAt a = some row →
    row.startedAt = startedAt ∧ row.inScope p.scope p.refId = true

theorem countedBy_of_resolvePolicy {host : ExtHost} {e : ExtStore} {job : Job} {p : Policy}
    {refs : Option String × Option String} (hrefs : job.policyRefs = some refs)
    (hp : e.resolvePolicy refs.1 refs.2 = some p) : job.CountedBy host p := by
  refine ⟨by simp [hrefs], fun startedAt a row hrow => ?_⟩
  rcases job with c | c | ⟨runId, c⟩ | serverId <;> cases hrefs <;> cases hrow
  all_goals
    refine ⟨rfl, ?_⟩
    rcases ExtStore.resolvePolicy_eq_some hp with
      ⟨hscope, href, hsome⟩ | ⟨hscope, href, hsome⟩ | hscope
    all_goals simp_all [McpInvocation.inScope]

/-- Whether the server or the account a job is for is in the registry. -/
def Job.Registered (e : ExtStore) : Job → Prop
  | .call c | .research _ c => (e.servers.lookup c.serverId).isSome
  | .invoke c => (e.accounts.lookup c.accountId).isSome
  | .connect _ => True

section PhaseOne

variable {host : ExtHost} {s : ExtSys} {job : Job} {id id' : String} {pass : Pass}

theorem callPhaseOne_ok {c : ToolCall} (h : (callPhaseOne host s c id id').answer = .ok pass) :
    (s.ext.servers.lookup c.serverId).isSome
      ∧ s.ext.checkPolicyCaps host c.projectId (some c.serverId) s.clock = .allow := by
  rcases callPhaseOne_cases host s c id id' with
    ⟨e, error, hrefused⟩ | ⟨server, e, hserver, -, hallow, -⟩
  · rw [hrefused] at h
    cases h
  · obtain ⟨hdecision, -⟩ := ExtStore.authorize_eq_ok hallow
    simp only [ExtStore.evaluate] at hdecision
    split_ifs at hdecision
    exact ⟨by rw [hserver]; rfl, hdecision.symm⟩

/-- What lets a job through: what it is for is there, and no cap has been met. -/
theorem phaseOne_ok (h : (job.phaseOne host s id id').answer = .ok pass) :
    job.Registered s.ext ∧ ∀ refs, job.policyRefs = some refs →
      s.ext.checkPolicyCaps host refs.1 refs.2 s.clock = .allow := by
  rcases job with c | c | ⟨runId, c⟩ | serverId
  · obtain ⟨hserver, hcaps⟩ := callPhaseOne_ok h
    exact ⟨hserver, fun refs hrefs => by cases hrefs; exact hcaps⟩
  · simp only [Job.phaseOne, invokePhaseOne] at h
    split at h
    · cases h
    · rename_i account haccount
      split at h
      · cases h
      · cases h
      · rename_i e hallow
        obtain ⟨hdecision, -⟩ := ExtStore.authorize_eq_ok hallow
        refine ⟨?_, fun refs hrefs => ?_⟩
        · rw [Job.Registered, haccount]
          rfl
        · cases hrefs
          exact hdecision.symm
  · obtain ⟨hserver, hcaps⟩ := callPhaseOne_ok h
    exact ⟨hserver, fun refs hrefs => by cases hrefs; exact hcaps⟩
  · exact ⟨trivial, fun refs hrefs => by cases hrefs⟩

end PhaseOne

/-! ### The rows of the attempts -/

/-- Whether a step is one of the two that take rows of attempts away. -/
def ExtAction.deletes : ExtAction → Bool
  | .deleteServer _ | .deleteAccount _ => true
  | _ => false

/-- A store that has what another has counted, and its servers and accounts. -/
structure ExtStore.Keeps (e e' : ExtStore) : Prop where
  registered (job : Job) (h : job.Registered e) : job.Registered e'
  count (k : PolicyScope × Option String) (w : ℤ) :
    e.countInvocationsSince k.1 k.2 w ≤ e'.countInvocationsSince k.1 k.2 w

namespace ExtStore

variable {e e' : ExtStore}

theorem Leaves.keeps (h : e.Leaves e') : e.Keeps e' := by
  refine ⟨fun job hjob => ?_, fun k w => by rw [countInvocationsSince, countInvocationsSince,
    h.invocations]⟩
  rcases job with c | c | ⟨runId, c⟩ | serverId
  · exact h.servers _ hjob
  · exact h.accounts _ hjob
  · exact h.servers _ hjob
  · trivial

theorem count_insertInvocation {x : McpInvocation} (h : e.insertInvocation x = .ok e')
    (scope : PolicyScope) (refId : Option String) (w : ℤ) :
    e'.countInvocationsSince scope refId w = e.countInvocationsSince scope refId w
      + if x.inScope scope refId && decide (w ≤ x.startedAt) then 1 else 0 := by
  obtain ⟨t, ht, rfl⟩ := insertInvocation_eq_ok h
  simp [countInvocationsSince, (KeyedTable.insert_eq_some.1 ht).2, List.countP_cons]

theorem keeps_insertInvocation {x : McpInvocation} (h : e.insertInvocation x = .ok e') :
    e.Keeps e' := by
  refine ⟨fun job hjob => ?_, fun k w => ?_⟩
  · obtain ⟨t, -, rfl⟩ := insertInvocation_eq_ok h
    rcases job with c | c | ⟨runId, c⟩ | serverId <;> exact hjob
  · rw [count_insertInvocation h]
    exact Nat.le_add_right _ _

/-- The row of an attempt whose server or account is there goes in, unless its id is taken. -/
theorem exists_insertInvocation {host : ExtHost} {job : Job} {startedAt : ℤ} {a : CallAnswer}
    {row : McpInvocation} (hjob : job.Registered e)
    (hrow : job.invocation host startedAt a = some row) (hid : e.invocations.lookup a.id = none) :
    ∃ e', e.insertInvocation row = .ok e' := by
  have hrowId : row.id = a.id := by
    rcases job with c | c | ⟨runId, c⟩ | serverId <;> cases hrow <;> rfl
  obtain ⟨t, ht⟩ : ∃ t, e.invocations.insert row = some t :=
    KeyedTable.exists_insert (by rwa [hrowId])
  rcases job with c | c | ⟨runId, c⟩ | serverId <;> cases hrow
  all_goals
    simp only [Job.Registered] at hjob
    rw [insertInvocation, if_neg (by simp), if_neg (by simp [hjob]), ht]
    exact ⟨_, rfl⟩

theorem keeps_of_tools {t : ToolTable} (h : e' = { e with tools := t }) : e.Keeps e' := by
  subst h
  refine ⟨fun job hjob => ?_, fun _ _ => le_rfl⟩
  rcases job with c | c | ⟨runId, c⟩ | serverId <;> exact hjob

end ExtStore

theorem keeps_step {host : ExtHost} {s s' : ExtSys} {a : ExtAction} (h : s.step host a = some s')
    (ha : a.deletes = false) : s.ext.Keeps s'.ext := by
  cases ExtSys.tableStep h with
  | others hleaves => exact hleaves.keeps
  | deleteServer => cases ha
  | deleteAccount => cases ha
  | setToolEnabled hx hs => exact ExtStore.keeps_of_tools hs
  | refresh hi hpc hjob he =>
    obtain ⟨t, -, ht⟩ := ExtStore.upsertMcpTools_eq_ok he
    exact ExtStore.keeps_of_tools ht
  | attempt hi hpc hstart hrow he => exact ExtStore.keeps_insertInvocation he

end BuilderPro
