import BuilderPro.Orchd.RateSlots

/-!
# The rate cap

An attempt is kept from being let through past the attempts on their way by its policy's mutex, as
far as they hold it: when none is let through under a rate that those on their way fill up
(`SeesInFlight`), no window has more attempts under a rate than the rate allows (`rate_cap_holds`).
-/

namespace BuilderPro

/-- Whether a job has not come to the gate yet. -/
def Pc.early : Pc → Bool
  | .start | .waiting _ | .ready => true
  | _ => false

/-- What holds of a task on its own. -/
structure Task.Sound (host : ExtHost) (e : ExtStore) (t : Task) : Prop where
  early (h : t.pc.early = true) : t.under = none ∧ t.startedAt = none
  admitted (pass : Pass) (h : t.pc = .admitted pass) : t.startedAt = none
  counted (p : Policy) (h : t.under = some p) : t.job.CountedBy host p
  registered (h : t.pc.inFlight = true) : t.job.Registered e

/-- Whether no two tasks hold the mutex of one key. -/
def GuardsApart (l : List Task) : Prop :=
  ∀ (i j : ℕ) (t u : Task) (key : String), l[i]? = some t → l[j]? = some u →
    t.guard = some key → u.guard = some key → i = j

structure RateInv (host : ExtHost) (s : ExtSys) : Prop where
  guards : GuardsApart s.tasks
  sound (t : Task) (h : t ∈ s.tasks) : t.Sound host s.ext
  counted (k : RateSlot) (w : ℤ) :
    s.tasks.countP (Task.doneSince k w) ≤ s.ext.countInvocationsSince k.slot.1 k.slot.2 w
  room (k : RateSlot) (w : ℤ) (hw : s.clock - policyWindowMs ≤ w) :
    s.tasks.countP (Task.occupies k w) ≤ k.rate.toNat
  bound (k : RateSlot) (w : ℤ) : s.tasks.countP (Task.attemptIn k w) ≤ k.rate.toNat

theorem GuardsApart.set {l : List Task} {i : ℕ} {t t' : Task} (h : GuardsApart l)
    (hi : l[i]? = some t) (ht : t'.guard = t.guard ∨ t'.guard = none) :
    GuardsApart (l.set i t') := by
  have hget : ∀ {j : ℕ} {u : Task} {key : String}, (l.set i t')[j]? = some u →
      u.guard = some key → ∃ v : Task, l[j]? = some v ∧ v.guard = some key := by
    intro j u key hu hkey
    rw [List.getElem?_set] at hu
    split_ifs at hu with hij
    · subst hij
      cases hu
      rcases ht with ht | ht
      · exact ⟨t, hi, ht ▸ hkey⟩
      · rw [ht] at hkey
        cases hkey
    · exact ⟨u, hu, hkey⟩
  intro j j' u u' key hu hu' hkey hkey'
  obtain ⟨v, hv, hkey⟩ := hget hu hkey
  obtain ⟨v', hv', hkey'⟩ := hget hu' hkey'
  exact h j j' v v' key hv hv' hkey hkey'

theorem GuardsApart.lock {l : List Task} {i : ℕ} {t' : Task} {key : String} (h : GuardsApart l)
    (hfree : ∀ u ∈ l, u.guard ≠ some key) (ht : t'.guard = some key) :
    GuardsApart (l.set i t') := by
  intro j j' u u' key' hu hu' hkey hkey'
  rw [List.getElem?_set] at hu hu'
  have hheld : ∀ {j : ℕ} {u : Task}, l[j]? = some u → u.guard = some key' → key' ≠ key := by
    rintro j u hu hkey rfl
    exact hfree u (List.mem_of_getElem? hu) hkey
  split_ifs at hu with hij
  · cases hu
    obtain rfl : key = key' := Option.some.inj (ht.symm.trans hkey)
    split_ifs at hu' with hij'
    · exact hij.symm.trans hij'
    · exact absurd rfl (hheld hu' hkey')
  · split_ifs at hu' with hij'
    · cases hu'
      obtain rfl : key = key' := Option.some.inj (ht.symm.trans hkey')
      exact absurd rfl (hheld hu hkey)
    · exact h j j' u u' key' hu hu' hkey hkey'

theorem GuardsApart.append {l : List Task} {t : Task} (h : GuardsApart l) (ht : t.guard = none) :
    GuardsApart (l ++ [t]) := by
  have hget : ∀ {j : ℕ} {u : Task} {key : String}, (l ++ [t])[j]? = some u →
      u.guard = some key → l[j]? = some u := by
    intro j u key hu hkey
    rw [List.getElem?_append] at hu
    split_ifs at hu
    · exact hu
    · rw [List.getElem?_singleton] at hu
      split_ifs at hu
      cases hu
      rw [ht] at hkey
      cases hkey
  intro j j' u u' key hu hu' hkey hkey'
  exact h j j' u u' key (hget hu hkey) (hget hu' hkey') hkey hkey'

namespace Task

variable {k : RateSlot} {w : ℤ} {t : Task} {r : Except OrchdMcpError (String × String)}

@[simp] theorem finish_under : (t.finish r).under = t.under := by
  unfold finish
  split <;> rfl

@[simp] theorem finish_startedAt : (t.finish r).startedAt = t.startedAt := by
  unfold finish
  split <;> rfl

@[simp] theorem finish_guard : (t.finish r).guard = none := by
  unfold finish
  split <;> rfl

@[simp] theorem finish_inFlight : (t.finish r).pc.inFlight = false := by
  unfold finish
  split <;> rfl

theorem finish_sound {host : ExtHost} {e e' : ExtStore} (h : t.Sound host e) :
    (t.finish r).Sound host e' where
  early he := by
    unfold finish at he
    split at he <;> cases he
  admitted pass hpc := by
    unfold finish at hpc
    split at hpc <;> cases hpc
  counted p hp := by
    rw [finish_job]
    exact h.counted p (by simpa using hp)
  registered hf := by simp at hf

theorem Sound.keeps {host : ExtHost} {e e' : ExtStore} (h : t.Sound host e) (hk : e.Keeps e') :
    t.Sound host e' :=
  ⟨h.early, h.admitted, h.counted, fun hf => hk.registered _ (h.registered hf)⟩

end Task

namespace RateInv

variable {host : ExtHost} {s s' : ExtSys} {i : ℕ} {t t' : Task}

theorem others (hI : RateInv host s) (ht : s'.tasks = s.tasks) (hc : s.clock ≤ s'.clock)
    (hk : s.ext.Keeps s'.ext) : RateInv host s' where
  guards := ht ▸ hI.guards
  sound t h := (hI.sound t (ht ▸ h)).keeps hk
  counted k w := ht ▸ (hI.counted k w).trans (hk.count _ _)
  room k w hw := ht ▸ hI.room k w (by omega)
  bound k w := ht ▸ hI.bound k w

/-- A task that nothing has been decided of is under no rate. -/
theorem spawn (hI : RateInv host s) (ht : s'.tasks = s.tasks ++ [t]) (hc : s'.clock = s.clock)
    (hk : s.ext.Keeps s'.ext) (hpc : t.pc = .start ∨ t.pc = .ready) (hguard : t.guard = none)
    (hunder : t.under = none) (hstart : t.startedAt = none) : RateInv host s' where
  guards := ht ▸ hI.guards.append hguard
  sound u hu := by
    rw [ht, List.mem_append, List.mem_singleton] at hu
    rcases hu with hu | rfl
    · exact (hI.sound u hu).keeps hk
    · refine ⟨fun _ => ⟨hunder, hstart⟩, fun _ _ => hstart, fun p hp => ?_, fun hf => ?_⟩
      · rw [hunder] at hp
        cases hp
      · rcases hpc with hpc | hpc <;> rw [hpc] at hf <;> cases hf
  counted k w := by
    rw [ht, List.countP_append]
    have := (hI.counted k w).trans (hk.count k.slot w)
    simpa [Task.doneSince, Task.not_rated_of_under hunder] using this
  room k w hw := by
    rw [ht, List.countP_append]
    simpa [Task.occupies, Task.not_rated_of_under hunder] using hI.room k w (by omega)
  bound k w := by
    rw [ht, List.countP_append]
    simpa [Task.attemptIn, Task.not_rated_of_under hunder] using hI.bound k w

/-- What is left of the invariant when one task has been set. -/
theorem sound_set (hI : RateInv host s) (ht : s'.tasks = s.tasks.set i t')
    (hk : s.ext.Keeps s'.ext) (hsound : t'.Sound host s'.ext) (u : Task) (hu : u ∈ s'.tasks) :
    u.Sound host s'.ext := by
  rw [ht] at hu
  rcases List.mem_or_eq_of_mem_set hu with hu | rfl
  · exact (hI.sound u hu).keeps hk
  · exact hsound

/-- A step of a task that is not let through, not started and not written down. -/
theorem set (hI : RateInv host s) (hi : s.tasks[i]? = some t)
    (ht : s'.tasks = s.tasks.set i t') (hc : s'.clock = s.clock) (hk : s.ext.Keeps s'.ext)
    (hguards : GuardsApart (s.tasks.set i t')) (hsound : t'.Sound host s'.ext)
    (hdone : ∀ k w, t'.doneSince k w = true → t.doneSince k w = true)
    (hoccupies : ∀ k w, t'.occupies k w = true → t.occupies k w = true)
    (hattempt : ∀ k w, t'.attemptIn k w = true → t.attemptIn k w = true) : RateInv host s' where
  guards := ht ▸ hguards
  sound := hI.sound_set ht hk hsound
  counted k w := by
    rw [ht]
    exact (countP_set_le hi (hdone k w)).trans ((hI.counted k w).trans (hk.count k.slot w))
  room k w hw := by
    rw [ht]
    exact (countP_set_le hi (hoccupies k w)).trans (hI.room k w (by omega))
  bound k w := by
    rw [ht]
    exact (countP_set_le hi (hattempt k w)).trans (hI.bound k w)

/-- A step of a task that has not been let through. -/
theorem set_early (hI : RateInv host s) (hi : s.tasks[i]? = some t)
    (ht : s'.tasks = s.tasks.set i t') (hc : s'.clock = s.clock) (hk : s.ext.Keeps s'.ext)
    (hguards : GuardsApart (s.tasks.set i t')) (hsound : t'.Sound host s'.ext)
    (hunder : t'.under = none) : RateInv host s' := by
  have hrated : ∀ k, t'.rated k = false := fun k => Task.not_rated_of_under hunder
  refine hI.set hi ht hc hk hguards hsound ?_ ?_ ?_ <;> intro k w h
  · simp [Task.doneSince, hrated] at h
  · simp [Task.occupies, hrated] at h
  · simp [Task.attemptIn, hrated] at h

/-- A task that ends before it is started, or that is under no policy. -/
theorem set_finish (hI : RateInv host s) (hi : s.tasks[i]? = some t)
    {r : Except OrchdMcpError (String × String)} (ht : s'.tasks = s.tasks.set i (t.finish r))
    (hc : s'.clock = s.clock) (hk : s.ext.Keeps s'.ext)
    (hnone : t.startedAt = none ∨ t.under = none) : RateInv host s' := by
  have hsound := hI.sound t (List.mem_of_getElem? hi)
  refine hI.set hi ht hc hk (hI.guards.set hi (.inr Task.finish_guard))
    (Task.finish_sound hsound) ?_ ?_ ?_ <;> intro k w h
  · rcases hnone with hnone | hnone
    · simp [Task.doneSince, Task.startedSince, hnone] at h
    · simp [Task.doneSince, Task.rated, hnone] at h
  · simp only [Task.occupies, Task.rated, Task.startedSince, Task.finish_under,
      Task.finish_startedAt, Task.finish_inFlight, Bool.false_and, Bool.false_or] at h ⊢
    simp_all
  · simpa [Task.attemptIn, Task.rated] using h

/-- A task that is let through takes one of the places its rate has left. -/
theorem set_letThrough (hI : RateInv host s) (hi : s.tasks[i]? = some t)
    {pass : Pass} {under : Option Policy}
    (ht : s'.tasks = s.tasks.set i { t with pc := .admitted pass, under := under })
    (hc : s'.clock = s.clock) (hk : s.ext.Keeps s'.ext) (hpc : t.pc = .ready)
    (hreg : t.job.Registered s.ext)
    (hcounted : ∀ p, under = some p → t.job.CountedBy host p)
    (hroom : ∀ p r, under = some p → p.ratePerMin = some r →
      s.ext.countInvocationsSince p.scope p.refId (s.clock - policyWindowMs)
        + s.tasks.countP (fun u => u.pc.inFlight && u.rated ⟨p.slot, r⟩) < r.toNat) :
    RateInv host s' where
  guards := ht ▸ hI.guards.set hi (.inl rfl)
  sound := by
    have hstart := ((hI.sound t (List.mem_of_getElem? hi)).early (by rw [hpc]; rfl)).2
    exact hI.sound_set ht hk ⟨fun h => (by cases h), fun _ _ => hstart, hcounted,
      fun _ => hk.registered _ hreg⟩
  counted k w := by
    rw [ht]
    refine (countP_set_le hi fun h => ?_).trans ((hI.counted k w).trans (hk.count k.slot w))
    simp [Task.doneSince, Pc.inFlight] at h
  room k w hw := by
    rw [ht]
    rw [hc] at hw
    by_cases hrated : ∃ p, under = some p ∧ p.slot = k.slot ∧ p.ratePerMin = some k.rate
    · obtain ⟨p, hunder, hslot, hrate⟩ := hrated
      have hplaces := hroom p k.rate hunder hrate
      have hsplit : s.tasks.countP (Task.occupies k w) ≤ s.tasks.countP (Task.doneSince k w)
          + s.tasks.countP (fun u => u.pc.inFlight && u.rated k) :=
        countP_le_add fun u _ hu => Task.occupies_imp hu
      have hdone : s.tasks.countP (Task.doneSince k w)
          ≤ s.tasks.countP (Task.doneSince k (s.clock - policyWindowMs)) :=
        List.countP_mono_left fun u _ hu => Task.doneSince_of_le hw hu
      have hrows := hI.counted k (s.clock - policyWindowMs)
      have hset := countP_set_le_succ (p := Task.occupies k w)
        (y := { t with pc := .admitted pass, under := under }) hi
      rw [hslot] at hplaces
      change _ + s.tasks.countP (fun u => u.pc.inFlight && u.rated k) < _ at hplaces
      rw [← hslot] at hrows
      simp only [Policy.slot] at hrows
      omega
    · refine (countP_set_le hi fun h => ?_).trans (hI.room k w hw)
      simp only [Task.occupies, Task.rated, Bool.and_eq_true, Option.any_eq_true, beq_iff_eq] at h
      exact absurd h.1 hrated
  bound k w := by
    have hstart := ((hI.sound t (List.mem_of_getElem? hi)).early (by rw [hpc]; rfl)).2
    rw [ht]
    refine (countP_set_le hi fun h => ?_).trans (hI.bound k w)
    simp [Task.attemptIn, hstart] at h

/-- A task that is started has its place already. -/
theorem set_dial (hI : RateInv host s) (hi : s.tasks[i]? = some t) {pass : Pass}
    {started : Option ℤ}
    (ht : s'.tasks = s.tasks.set i { t with pc := .dialing, startedAt := started })
    (hc : s'.clock = s.clock) (hk : s.ext.Keeps s'.ext) (hpc : t.pc = .admitted pass)
    (hstarted : started = some s.clock ∨ started = t.startedAt) : RateInv host s' := by
  have hsound := hI.sound t (List.mem_of_getElem? hi)
  have hnone := hsound.admitted pass hpc
  have hflight : t.pc.inFlight = true := by rw [hpc]; rfl
  have hoccupies : ∀ k w,
      ({ t with pc := .dialing, startedAt := started } : Task).occupies k w = true →
        t.occupies k w = true := by
    intro k w h
    simp only [Task.occupies, Task.rated, Bool.and_eq_true] at h
    simp only [Task.occupies, Task.rated, Bool.and_eq_true]
    exact ⟨h.1, by simp [hflight, hnone]⟩
  have hroom : ∀ k w, s.clock - policyWindowMs ≤ w →
      (s.tasks.set i { t with pc := .dialing, startedAt := started }).countP (Task.occupies k w)
        ≤ k.rate.toNat := fun k w hw => (countP_set_le hi (hoccupies k w)).trans (hI.room k w hw)
  have hsound' : ({ t with pc := .dialing, startedAt := started } : Task).Sound host s'.ext :=
    ⟨fun h => (by cases h), fun _ h => (by cases h), hsound.counted,
      fun _ => hk.registered _ (hsound.registered hflight)⟩
  refine ⟨ht ▸ hI.guards.set hi (.inl rfl), hI.sound_set ht hk hsound', fun k w => ?_,
    fun k w hw => ht ▸ hroom k w (by omega), fun k w => ?_⟩
  · rw [ht]
    refine (countP_set_le hi fun h => ?_).trans ((hI.counted k w).trans (hk.count k.slot w))
    simp [Task.doneSince, Pc.inFlight] at h
  · rw [ht]
    by_cases hw : s.clock - policyWindowMs ≤ w
    · exact (List.countP_mono_left fun u _ hu => Task.occupies_of_attemptIn hu).trans (hroom k w hw)
    · refine (countP_set_le hi fun h => ?_).trans (hI.bound k w)
      simp only [Task.attemptIn, Bool.and_eq_true, Option.any_eq_true, decide_eq_true_eq] at h
      obtain ⟨-, u, hu, -, hle⟩ := h
      rcases hstarted with rfl | rfl
      · cases hu
        omega
      · rw [hnone] at hu
        cases hu

/-- An attempt that ends is written down. -/
theorem set_attempted (hI : RateInv host s) (hi : s.tasks[i]? = some t)
    {r : Except OrchdMcpError (String × String)} {startedAt : ℤ} {a : CallAnswer}
    {row : McpInvocation} (ht : s'.tasks = s.tasks.set i (t.finish r)) (hc : s'.clock = s.clock)
    (hpc : t.pc = .dialing) (hstart : t.startedAt = some startedAt)
    (hrow : t.job.invocation host startedAt a = some row)
    (he : s.ext.insertInvocation row = .ok s'.ext) : RateInv host s' := by
  have hk := ExtStore.keeps_insertInvocation he
  have hsound := hI.sound t (List.mem_of_getElem? hi)
  refine ⟨ht ▸ hI.guards.set hi (.inr Task.finish_guard),
    hI.sound_set ht hk (Task.finish_sound hsound), fun k w => ?_, fun k w hw => ?_, fun k w => ?_⟩
  · rw [ht, ExtStore.count_insertInvocation he]
    by_cases h : (t.finish r).doneSince k w = true
    · simp only [Task.doneSince, Task.rated, Task.startedSince, Task.finish_under,
        Task.finish_startedAt, Bool.and_eq_true, Option.any_eq_true, beq_iff_eq,
        decide_eq_true_eq] at h
      obtain ⟨⟨⟨p, hp, hslot, -⟩, -⟩, u, hu, hle⟩ := h
      obtain ⟨hstarted, hscope⟩ := (hsound.counted p hp).2 startedAt a row hrow
      obtain rfl : startedAt = u := Option.some.inj (hstart.symm.trans hu)
      obtain ⟨hscope', href⟩ := Prod.mk.inj hslot
      rw [hscope', href] at hscope
      rw [hscope, hstarted, if_pos (by simpa using hle)]
      exact (countP_set_le_succ hi).trans (Nat.add_le_add_right (hI.counted k w) 1)
    · exact (countP_set_le hi fun h' => absurd h' h).trans
        ((hI.counted k w).trans (Nat.le_add_right _ _))
  · rw [ht]
    refine (countP_set_le hi fun h => ?_).trans (hI.room k w (by omega))
    simp only [Task.occupies, Task.rated, Task.startedSince, Task.finish_under,
      Task.finish_startedAt, Task.finish_inFlight, Bool.false_and, Bool.false_or] at h ⊢
    simp_all
  · rw [ht]
    exact (countP_set_le hi fun h => by simpa [Task.attemptIn, Task.rated] using h).trans
      (hI.bound k w)

end RateInv

/-! ### Runs -/

namespace ExtSys

variable {host : ExtHost} {s s' : ExtSys}

/-- Whether the row of an attempt that ends has an id of its own. -/
def FreshRow (s : ExtSys) : ExtAction → Prop
  | .answer _ (.call a) => s.ext.invocations.lookup a.id = none
  | _ => True

instance (a : ExtAction) : Decidable (s.FreshRow a) := by
  unfold FreshRow
  split <;> infer_instance

/-- Whether a job that comes to the gate under a rate holds the mutex of its policy along with every
other that is in flight under it, or these leave it a place when the rows that are counted do. -/
def SeesInFlight (s : ExtSys) : ExtAction → Prop
  | .authorize i _ _ =>
    ∀ t ∈ s.tasks[i]?, ∀ refs ∈ t.job.policyRefs, ∀ p ∈ s.ext.resolvePolicy refs.1 refs.2,
      ∀ r ∈ p.ratePerMin,
        (∀ u ∈ s.tasks.eraseIdx i, (u.pc.inFlight && u.rated ⟨p.slot, r⟩) = true →
          t.guard = s.ext.resolvePolicyKey refs.1 refs.2
            ∧ u.guard = s.ext.resolvePolicyKey refs.1 refs.2)
        ∨ (s.ext.countInvocationsSince p.scope p.refId (s.clock - policyWindowMs) < r.toNat →
          s.ext.countInvocationsSince p.scope p.refId (s.clock - policyWindowMs)
            + s.tasks.countP (fun u => u.pc.inFlight && u.rated ⟨p.slot, r⟩) < r.toNat)
  | _ => True

instance (a : ExtAction) : Decidable (s.SeesInFlight a) := by
  unfold SeesInFlight
  split <;> infer_instance

/-- Attempts that hold the mutex of their policy are not in flight together. -/
theorem room_of_seesInFlight {i : ℕ} {id id' : String} {t : Task} {pass : Pass} {p : Policy}
    {r : ℤ} {refs : Option String × Option String} (hI : RateInv host s)
    (hsees : s.SeesInFlight (.authorize i id id')) (hi : s.tasks[i]? = some t)
    (hpc : t.pc = .ready) (hanswer : (t.job.phaseOne host s id id').answer = .ok pass)
    (hrefs : t.job.policyRefs = some refs)
    (hp : s.ext.resolvePolicy refs.1 refs.2 = some p) (hr : p.ratePerMin = some r) :
    s.ext.countInvocationsSince p.scope p.refId (s.clock - policyWindowMs)
      + s.tasks.countP (fun u => u.pc.inFlight && u.rated ⟨p.slot, r⟩) < r.toNat := by
  have hrows := ExtStore.lt_of_checkPolicyCaps ((phaseOne_ok hanswer).2 refs hrefs) hp hr
  rcases hsees t hi refs hrefs p hp r hr with hheld | hplaces
  · have hkey : ∃ key, s.ext.resolvePolicyKey refs.1 refs.2 = some key := by
      simp [ExtStore.resolvePolicyKey, hp]
    obtain ⟨key, hkey⟩ := hkey
    rw [hkey] at hheld
    have hnone : s.tasks.countP (fun u => u.pc.inFlight && u.rated ⟨p.slot, r⟩) = 0 := by
      rw [List.countP_eq_zero]
      intro u hu hflight
      obtain ⟨j, hj⟩ := List.mem_iff_getElem?.1 hu
      by_cases hij : j = i
      · obtain rfl : t = u := Option.some.inj (hi.symm.trans (hij ▸ hj))
        rw [hpc] at hflight
        cases hflight
      · have hmem := List.mem_eraseIdx_iff_getElem?.2 ⟨j, hij, hj⟩
        obtain ⟨hguard, hguard'⟩ := hheld u hmem hflight
        exact hij (hI.guards j i u t key hj hi hguard' hguard)
    omega
  · exact hplaces (by omega)

theorem rateInv_step {a : ExtAction} (hI : RateInv host s) (ha : a.deletes = false)
    (hfresh : s.FreshRow a) (hsees : s.SeesInFlight a) (h : s.step host a = some s') :
    RateInv host s' := by
  have hk := keeps_step h ha
  have hsound : ∀ {i : ℕ} {t : Task}, s.tasks[i]? = some t → t.Sound host s.ext :=
    fun hi => hI.sound _ (List.mem_of_getElem? hi)
  cases taskStep h with
  | others ht _ _ hc => exact hI.others ht hc hk
  | spawn job hpc ht _ _ hc => exact hI.spawn ht hc hk hpc rfl rfl rfl
  | @resolveKey i t pc hi hpc hpc' hs =>
    subst hs
    have hunder := (hsound hi).early (by rw [hpc]; rfl)
    refine hI.set_early hi rfl rfl hk (hI.guards.set hi (.inl rfl)) ?_ hunder.1
    exact ⟨fun _ => hunder, fun _ _ => hunder.2, (hsound hi).counted, fun hf => by
      rcases hpc' with rfl | ⟨key, rfl⟩ <;> cases hf⟩
  | @lock i t key hi hpc hfree hs =>
    subst hs
    have hunder := (hsound hi).early (by rw [hpc]; rfl)
    refine hI.set_early hi rfl rfl hk (hI.guards.lock hfree rfl) ?_ hunder.1
    exact ⟨fun _ => hunder, fun _ _ => hunder.2, (hsound hi).counted, fun hf => by cases hf⟩
  | @setRunning i t pc e hi hpc hpc' hs =>
    subst hs
    have hunder := (hsound hi).early (by rw [hpc]; rfl)
    refine hI.set_early hi rfl rfl hk (hI.guards.set hi (.inl rfl)) ?_ hunder.1
    exact ⟨fun _ => hunder, fun _ _ => hunder.2, (hsound hi).counted, fun hf => by
      rcases hpc' with rfl | ⟨error, rfl⟩ <;> cases hf⟩
  | @refuse i id id' t error hi hpc _ hs =>
    subst hs
    exact hI.set_finish hi rfl rfl hk
      (.inl ((hsound hi).early (by rw [hpc]; rfl)).2)
  | @letThrough i id id' t pass hi hpc hanswer hs =>
    subst hs
    refine hI.set_letThrough hi rfl rfl hk hpc (phaseOne_ok hanswer).1
      (fun p hp => ?_) fun p r hp hr => ?_
    · obtain ⟨refs, hrefs, hp⟩ := Option.bind_eq_some_iff.1 hp
      exact countedBy_of_resolvePolicy hrefs hp
    · obtain ⟨refs, hrefs, hp⟩ := Option.bind_eq_some_iff.1 hp
      exact room_of_seesInFlight hI hsees hi hpc hanswer hrefs hp hr
  | @dial i t pass started hi hpc hstart hs =>
    subst hs
    refine hI.set_dial hi rfl rfl hk hpc ?_
    rw [hstart]
    split_ifs
    · exact .inl rfl
    · exact .inr rfl
  | @undialed i t pass error hi hpc hs =>
    subst hs
    exact hI.set_finish hi rfl rfl hk (.inl ((hsound hi).admitted pass hpc))
  | @listed i a t serverId e r hi hpc hjob hs =>
    subst hs
    refine hI.set_finish hi rfl rfl hk (.inr ?_)
    rcases hunder : t.under with _ | p
    · rfl
    · have hrefs := ((hsound hi).counted p hunder).1
      rw [hjob] at hrefs
      cases hrefs
  | @attempted i a t startedAt row e r hi hpc hstart hrow he hs =>
    subst hs
    exact hI.set_attempted hi rfl rfl hpc hstart hrow he
  | @lost i a t startedAt row error hi hpc hstart hrow he hs =>
    subst hs
    have hreg := (hsound hi).registered (by rw [hpc]; rfl)
    obtain ⟨e, he'⟩ := ExtStore.exists_insertInvocation hreg hrow hfresh
    rw [he] at he'
    cases he'
  | @settle i t r e error hi hpc hs =>
    subst hs
    refine hI.set hi rfl rfl hk (hI.guards.set hi (.inl rfl)) ?_ ?_ ?_ ?_
    · exact ⟨fun hf => (by cases hf), fun _ hf => (by cases hf), (hsound hi).counted,
        fun hf => (by cases hf)⟩
    · intro k w hdone
      simpa [Task.doneSince, Task.rated, Task.startedSince, hpc, Pc.inFlight] using hdone
    · intro k w hoccupies
      simpa [Task.occupies, Task.rated, Task.startedSince, hpc, Pc.inFlight] using hoccupies
    · intro k w hattempt
      exact hattempt

/-- In any minute, no more attempts are started under a rate than it allows, as long as none is let
through under a rate that those in flight fill up. -/
theorem rate_cap_holds {as : List ExtAction} (hs : s.tasks = [])
    (hdel : ∀ a ∈ as, a.deletes = false) (hfresh : Runs.Along (step host) FreshRow s as)
    (hsees : Runs.Along (step host) SeesInFlight s as) (hr : Runs.run (step host) s as = some s')
    (k : RateSlot) (w : ℤ) : s'.tasks.countP (Task.attemptIn k w) ≤ k.rate.toNat := by
  have hI : RateInv host s := by
    refine ⟨?_, ?_, ?_, ?_, ?_⟩ <;> simp [hs, GuardsApart]
  have hsteps := (hfresh.and hsees).and_forall hdel
  refine (hsteps.keeps (I := RateInv host) (fun u a v hu hc huv => ?_) hI hr).bound k w
  exact rateInv_step hu hc.2 hc.1.1 hc.1.2 huv

/-! ### Runs of the same minute -/

/-- A server with a tool, and a rate of one call a minute. -/
def rateOfOne : List ExtAction :=
  [.domain (((·.1) <$> Store.empty.createIdea none "" "" "i" 0).toOption.getD .empty),
    .addServer ⟨"search", .http, some "http://localhost:1", none, [], .empty, .global, none, .none,
      none, none, true, 30000, 0⟩ "s",
    .setPolicy .global none none (some 1) "p", .grantConsent "s" consentKindConnect "g" "a1",
    .request (.connect "s"), .authorize 0 "a2" "", .dial 0,
    .answer 0 (.tools [⟨"find", none, none, "\x7b\x7d"⟩] fun _ => "t")]

/-- The background task of a run takes no mutex. -/
def twoRuns : List ExtAction :=
  rateOfOne ++ [.startRun "i" "s" "find" "\x7b\x7d" "r1", .startRun "i" "s" "find" "\x7b\x7d" "r2",
    .setRunning 1, .setRunning 2, .authorize 1 "a3" "a4", .authorize 2 "a5" "a6", .dial 1, .dial 2]

theorem rate_cap_exceeded : (∀ a ∈ twoRuns, a.deletes = false)
    ∧ Runs.Along (step plainExtHost) FreshRow fresh twoRuns
    ∧ ∃ t, Runs.run (step plainExtHost) fresh twoRuns = some t
      ∧ t.tasks.countP (Task.attemptIn ⟨(.global, none), 1⟩ 0) = 2 :=
  ⟨by decide, by decide +kernel, _, rfl, by decide +kernel⟩

/-- Two calls take the mutex in turn. -/
def twoCalls : List ExtAction :=
  rateOfOne ++ [.request (.call ⟨"s", "find", "\x7b\x7d", none⟩),
    .request (.call ⟨"s", "find", "\x7b\x7d", none⟩), .resolveKey 1, .resolveKey 2, .lock 1,
    .authorize 1 "a3" "a4", .dial 1, .answer 1 (.call ⟨"n", "f", 5, none, none, none, none⟩),
    .lock 2, .authorize 2 "a5" "a6"]

theorem rate_cap_holds_twoCalls : ∃ t, Runs.run (step plainExtHost) fresh twoCalls = some t
    ∧ ∀ k w, t.tasks.countP (Task.attemptIn k w) ≤ k.rate.toNat := by
  refine ⟨_, rfl, ?_⟩
  exact @rate_cap_holds plainExtHost fresh _ twoCalls rfl (by decide) (by decide +kernel)
    (by decide +kernel) rfl

end ExtSys

end BuilderPro
