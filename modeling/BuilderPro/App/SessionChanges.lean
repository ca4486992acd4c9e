import BuilderPro.App.SessionLists
import BuilderPro.Lib.Replica

/-!
# The changes of one session

What the daemon does to a session, as its row takes it and as the store's entry does: an entry whose
lifecycle is exited takes no status, and one that takes a status is live by it.  A row that is put
in the store before the events that tell of its last changes ends as the daemon's, if the statuses
among them come in order (`after_onEntry_eq`).
-/

namespace BuilderPro

/-- A change of one session: another row, fields of it, or none any more. -/
inductive SessionChange
  | created (m : SessionMeta)
  | status (u : StatusUpdate)
  | exited (x : ExitRecord)
  | removed
  deriving DecidableEq

/-- What the daemon's `setStatus` leaves of a row: it does not look at the lifecycle. -/
def SessionMeta.setStatus (m : SessionMeta) (u : StatusUpdate) : SessionMeta :=
  { m with lifecycle := u.lifecycle, waitingForInput := u.waitingForInput, cwd := u.cwd }

namespace SessionChange

/-- What a change makes of the store's entry. -/
def onEntry : SessionChange → Option SessionMeta → Option SessionMeta
  | created m, _ => some m
  | status u, v => v.map (·.setLifecycle u)
  | exited x, v => v.map (·.markExited x)
  | removed, _ => none

/-- What it makes of the daemon's row. -/
def onRow : SessionChange → Option SessionMeta → Option SessionMeta
  | created m, _ => some m
  | status u, v => v.map (·.setStatus u)
  | exited x, v => v.map (·.markExited x)
  | removed, _ => none

def isStatus : SessionChange → Bool
  | status _ => true
  | _ => false

def isExit : SessionChange → Bool
  | exited _ => true
  | _ => false

def isCreated : SessionChange → Bool
  | created _ => true
  | _ => false

/-- After it the store's entry is exited. -/
def ends : SessionChange → Bool
  | created m => m.lifecycle.isExited
  | status u => u.lifecycle.isExited
  | exited _ => true
  | removed => false

/-- A row `w` is put in the store, and `coming` are the events on their way, the last of them those
of the changes `since` the row was read; the daemon has `m` by now. -/
structure StatusesInOrder (w m : SessionMeta) (coming since : List SessionChange) : Prop where
  /-- No status comes after an end. -/
  ended : coming.Pairwise fun a b => a.ends → ¬b.isStatus
  /-- A status of a session that has no PTY comes before its exit. -/
  dead : m.isActive = false → (∃ c ∈ coming, c.isStatus) → ∃ c ∈ coming, c.isExit
  /-- No exited status of a live session reaches an entry that is not exited. -/
  live : m.isActive = true → (∃ c ∈ coming, c.isCreated) ∨ (∃ c ∈ since, c.isStatus) →
    ∀ c ∈ coming, c.isStatus → ¬c.ends
  /-- The row is not exited, if there are statuses since. -/
  open_ : (∃ c ∈ since, c.isStatus) → ¬w.lifecycle.isExited

instance (w m : SessionMeta) (coming since : List SessionChange) :
    Decidable (StatusesInOrder w m coming since) :=
  decidable_of_iff (_ ∧ _ ∧ _ ∧ _)
    ⟨fun ⟨h₁, h₂, h₃, h₄⟩ => ⟨h₁, h₂, h₃, h₄⟩, fun ⟨h₁, h₂, h₃, h₄⟩ => ⟨h₁, h₂, h₃, h₄⟩⟩

/-! ### Statuses and exits -/

/-- The changes that leave the session there. -/
def InPlace (cs : List SessionChange) : Prop := ∀ c ∈ cs, c.isStatus ∨ c.isExit

/-- Rows that are one but for the flag that they are live. -/
def Alike (e r : SessionMeta) : Prop := e.withActive true = r.withActive true

variable {cs : List SessionChange} {e r w m : SessionMeta}

theorem eq_of_alike (h : Alike e r) (ha : e.isActive = r.isActive) : e = r := by
  cases e
  cases r
  simp_all [Alike, SessionMeta.withActive]

theorem Alike.setLifecycle (h : Alike e r) (he : ¬e.lifecycle.isExited) (u : StatusUpdate) :
    Alike (e.setLifecycle u) (r.setStatus u) := by
  cases e
  cases r
  simp_all [Alike, SessionMeta.withActive, SessionMeta.setLifecycle, SessionMeta.setStatus]

theorem Alike.markExited (h : Alike e r) (x : ExitRecord) : e.markExited x = r.markExited x := by
  cases e
  cases r
  simp_all [Alike, SessionMeta.withActive, SessionMeta.markExited]

theorem lifecycle_setLifecycle (he : ¬e.lifecycle.isExited) (u : StatusUpdate) :
    (e.setLifecycle u).lifecycle = u.lifecycle := by
  rw [SessionMeta.setLifecycle, if_neg he]

theorem setLifecycle_of_exited (he : e.lifecycle.isExited) (u : StatusUpdate) :
    e.setLifecycle u = e := if_pos he

theorem ends_of_isExit : ∀ {c : SessionChange}, c.isExit → c.ends
  | exited _, _ => rfl

theorem not_isStatus_of_isExit : ∀ {c : SessionChange}, c.isExit → ¬c.isStatus
  | exited _, _ => Bool.false_ne_true

theorem InPlace.tail {c : SessionChange} (h : InPlace (c :: cs)) : InPlace cs :=
  fun d hd => h d (List.mem_cons_of_mem _ hd)

/-- The entry and the row stay alike, as long as no status comes to an exited entry. -/
theorem alike_after (hcs : InPlace cs)
    (hended : cs.Pairwise fun a b => a.ends → ¬b.isStatus) (hl : Alike e r)
    (he : e.lifecycle.isExited → ∀ c ∈ cs, ¬c.isStatus) :
    ∃ e' r', Replica.after onEntry cs (some e) = some e' ∧
      Replica.after onRow cs (some r) = some r' ∧ Alike e' r' := by
  induction cs generalizing e r with
  | nil => exact ⟨e, r, rfl, rfl, hl⟩
  | cons c cs ih =>
    obtain ⟨hhead, htail⟩ := List.pairwise_cons.1 hended
    have hc := hcs c List.mem_cons_self
    rcases c with m | u | x | _
    · exact absurd hc (by simp [isStatus, isExit])
    · have hopen : ¬e.lifecycle.isExited := fun h => he h _ List.mem_cons_self rfl
      refine ih hcs.tail htail (hl.setLifecycle hopen u) fun h c hc => hhead c hc ?_
      rwa [lifecycle_setLifecycle hopen] at h
    · have halike : Alike (e.markExited x) (r.markExited x) := by
        rw [Alike, hl.markExited x]
      exact ih hcs.tail htail halike fun _ c hc => hhead c hc rfl
    · exact absurd hc (by simp [isStatus, isExit])

/-- Only an exit takes the flag from the row. -/
theorem isActive_after_onRow (hcs : InPlace cs)
    (hr : Replica.after onRow cs (some r) = some m) :
    m.isActive = (r.isActive && !cs.any isExit) := by
  induction cs generalizing r with
  | nil =>
    obtain rfl := Option.some.inj hr
    simp
  | cons c cs ih =>
    have hc := hcs c List.mem_cons_self
    rcases c with m | u | x | _
    · exact absurd hc (by simp [isStatus, isExit])
    · exact ih (r := r.setStatus u) hcs.tail hr
    · rw [ih (r := r.markExited x) hcs.tail hr]
      simp [SessionMeta.markExited, isExit]
    · exact absurd hc (by simp [isStatus, isExit])

theorem eq_nil_of_inPlace (hcs : InPlace cs) (hexit : ∀ c ∈ cs, ¬c.isExit)
    (hstatus : ∀ c ∈ cs, ¬c.isStatus) : cs = [] :=
  List.eq_nil_iff_forall_not_mem.2 fun c hc => (hcs c hc).elim (hstatus c hc) (hexit c hc)

/-- An exit among the changes is the last but for others, and the entry is not live. -/
theorem isActive_of_isExit (hcs : InPlace cs)
    (hended : cs.Pairwise fun a b => a.ends → ¬b.isStatus) (hexit : ∃ c ∈ cs, c.isExit)
    (he : Replica.after onEntry cs (some e) = some m) : m.isActive = false := by
  induction cs generalizing e with
  | nil => simp at hexit
  | cons c cs ih =>
    obtain ⟨hhead, htail⟩ := List.pairwise_cons.1 hended
    have hc := hcs c List.mem_cons_self
    by_cases hmore : ∃ d ∈ cs, d.isExit
    · rcases c with m | u | x | _
      · exact absurd hc (by simp [isStatus, isExit])
      · exact ih hcs.tail htail hmore he
      · exact ih hcs.tail htail hmore he
      · exact absurd hc (by simp [isStatus, isExit])
    · obtain ⟨d, hd, hdx⟩ := hexit
      rcases List.mem_cons.1 hd with rfl | hd
      · rcases d with m | u | x | _
        · cases hdx
        · cases hdx
        · have hnil : cs = [] := eq_nil_of_inPlace hcs.tail (fun c hc h => hmore ⟨c, hc, h⟩)
            fun c hc => hhead c hc rfl
          subst hnil
          rw [← Option.some.inj he]
          rfl
        · cases hdx
      · exact absurd ⟨d, hd, hdx⟩ hmore

/-- Statuses that do not end a session make an entry that is not exited live. -/
theorem isActive_of_statuses (hcs : ∀ c ∈ cs, c.isStatus ∧ ¬c.ends) (hne : cs ≠ [])
    (hopen : ¬e.lifecycle.isExited) (he : Replica.after onEntry cs (some e) = some m) :
    m.isActive = true ∧ ¬m.lifecycle.isExited := by
  induction cs generalizing e with
  | nil => exact absurd rfl hne
  | cons c cs ih =>
    obtain ⟨hc, hclean⟩ := hcs c List.mem_cons_self
    rcases c with _ | u | _ | _
    · cases hc
    · have hopen' : ¬(e.setLifecycle u).lifecycle.isExited := by
        rw [lifecycle_setLifecycle hopen]
        exact hclean
      by_cases hnil : cs = []
      · subst hnil
        rw [← Option.some.inj he]
        refine ⟨?_, hopen'⟩
        show (e.setLifecycle u).isActive = true
        rw [SessionMeta.setLifecycle, if_neg hopen]
        simpa [ends] using hclean
      · exact ih (fun d hd => hcs d (List.mem_cons_of_mem _ hd)) hnil hopen' he
    · cases hc
    · cases hc

/-- An entry that is alike to the row that the changes are made to ends as that row. -/
theorem after_onEntry_of_alike (hcs : InPlace cs)
    (hended : cs.Pairwise fun a b => a.ends → ¬b.isStatus) (hl : Alike e r)
    (he : e.lifecycle.isExited → ∀ c ∈ cs, ¬c.isStatus)
    (hr : Replica.after onRow cs (some r) = some m) (hnil : cs = [] → e.isActive = r.isActive)
    (hlive : cs ≠ [] → (∀ c ∈ cs, ¬c.isExit) → m.isActive = true ∧ ∀ c ∈ cs, ¬c.ends) :
    Replica.after onEntry cs (some e) = some m := by
  obtain ⟨e', r', he', hr', halike⟩ := alike_after hcs hended hl he
  obtain rfl : r' = m := Option.some.inj (hr'.symm.trans hr)
  rw [he', eq_of_alike halike]
  by_cases hexit : ∃ c ∈ cs, c.isExit
  · rw [isActive_of_isExit hcs hended hexit he', isActive_after_onRow hcs hr,
      List.any_eq_true.2 hexit]
    simp
  · have hexit' : ∀ c ∈ cs, ¬c.isExit := fun c hc h => hexit ⟨c, hc, h⟩
    by_cases hcnil : cs = []
    · subst hcnil
      obtain rfl := Option.some.inj he'
      obtain rfl := Option.some.inj hr'
      exact hnil rfl
    · obtain ⟨hactive, hclean⟩ := hlive hcnil hexit'
      have hstatuses : ∀ c ∈ cs, c.isStatus ∧ ¬c.ends :=
        fun c hc => ⟨(hcs c hc).resolve_right (hexit' c hc), hclean c hc⟩
      obtain ⟨c, hc⟩ := List.exists_mem_of_ne_nil cs hcnil
      have hopen : ¬e.lifecycle.isExited := fun h => he h c hc (hstatuses c hc).1
      rw [hactive, (isActive_of_statuses hstatuses hcnil hopen he').1]

/-! ### A row and the events on their way -/

/-- Statuses and exits tell an exited entry of its exits alone. -/
theorem after_onEntry_of_exited (hcs : InPlace cs) (he : e.lifecycle.isExited) :
    ∃ e', Replica.after onEntry cs (some e) = some e' ∧ e'.lifecycle.isExited ∧
      (∀ x, e'.markExited x = e.markExited x) ∧ ((∀ c ∈ cs, ¬c.isExit) → e' = e) := by
  induction cs generalizing e with
  | nil => exact ⟨e, rfl, he, fun _ => rfl, fun _ => rfl⟩
  | cons c cs ih =>
    have hc := hcs c List.mem_cons_self
    rcases c with m | u | x | _
    · exact absurd hc (by simp [isStatus, isExit])
    · obtain ⟨e', he', hex, hmark, hsame⟩ := ih hcs.tail he
      refine ⟨e', ?_, hex, hmark, fun h => hsame fun c hc => h c (List.mem_cons_of_mem _ hc)⟩
      rw [Replica.after_cons, onEntry, Option.map_some, setLifecycle_of_exited he, he']
    · obtain ⟨e', he', hex, hmark, -⟩ := ih (e := e.markExited x) hcs.tail rfl
      exact ⟨e', he', hex, fun y => (hmark y).trans rfl, fun h =>
        absurd rfl (h _ List.mem_cons_self)⟩
    · exact absurd hc (by simp [isStatus, isExit])

/-- A status sets the same of whatever entry is not exited, so the last of them counts. -/
theorem after_onEntry_of_statuses (hcs : ∀ c ∈ cs, c.isStatus ∧ ¬c.ends)
    (he : ¬e.lifecycle.isExited) :
    ∃ e', Replica.after onEntry cs (some e) = some e' ∧ ¬e'.lifecycle.isExited ∧
      ∀ u, e'.setLifecycle u = e.setLifecycle u := by
  induction cs generalizing e with
  | nil => exact ⟨e, rfl, he, fun _ => rfl⟩
  | cons c cs ih =>
    obtain ⟨hc, hclean⟩ := hcs c List.mem_cons_self
    rcases c with _ | u | _ | _
    · cases hc
    · have hopen : ¬(e.setLifecycle u).lifecycle.isExited := by
        rw [lifecycle_setLifecycle he]
        exact hclean
      obtain ⟨e', he', hopen', hset⟩ := ih (fun d hd => hcs d (List.mem_cons_of_mem _ hd)) hopen
      refine ⟨e', he', hopen', fun v => (hset v).trans ?_⟩
      rw [SessionMeta.setLifecycle, if_neg hopen, SessionMeta.setLifecycle, if_neg he,
        SessionMeta.setLifecycle, if_neg he]
    · cases hc
    · cases hc

/-- The events of changes that a row has already leave it as it is, or show it live. -/
theorem after_onEntry_of_older {w₀ : SessionMeta} (hcs : InPlace cs)
    (hended : cs.Pairwise fun a b => a.ends → ¬b.isStatus)
    (hw : Replica.after onRow cs (some w₀) = some w) :
    Replica.after onEntry cs (some w) = some w ∨
      (cs ≠ [] ∧ (∀ c ∈ cs, c.isStatus) ∧
        Replica.after onEntry cs (some w) = some (w.withActive true)) := by
  rcases List.eq_nil_or_concat cs with rfl | ⟨bs, c, rfl⟩
  · exact .inl rfl
  · rw [List.concat_eq_append] at *
    obtain ⟨-, -, hlast⟩ := List.pairwise_append.1 hended
    have hc := hcs c (by simp)
    have hbs : InPlace bs := fun d hd => hcs d (List.mem_append_left _ hd)
    rw [Replica.after_concat] at hw
    rcases c with m | u | x | _
    · exact absurd hc (by simp [isStatus, isExit])
    · have hclean : ∀ d ∈ bs, d.isStatus ∧ ¬d.ends := by
        intro d hd
        have hopen : ¬d.ends := fun h => hlast d hd _ (List.mem_singleton.2 rfl) h rfl
        exact ⟨(hbs d hd).resolve_right fun hexit => hopen (ends_of_isExit hexit), hopen⟩
      obtain ⟨r, -, hr⟩ := Option.map_eq_some_iff.1 hw
      by_cases hw' : w.lifecycle.isExited
      · obtain ⟨e', he', -, -, hsame⟩ := after_onEntry_of_exited hbs hw'
        have hexit : ∀ d ∈ bs, ¬d.isExit := fun d hd h => not_isStatus_of_isExit h (hclean d hd).1
        left
        rw [Replica.after_concat, he', hsame hexit, onEntry, Option.map_some,
          setLifecycle_of_exited hw']
      · obtain ⟨e', he', -, hset⟩ := after_onEntry_of_statuses hclean hw'
        refine .inr ⟨by simp, fun d hd => ?_, ?_⟩
        · rcases List.mem_append.1 hd with hd | hd
          · exact (hclean d hd).1
          · rw [List.mem_singleton.1 hd]
            rfl
        · rw [Replica.after_concat, he', onEntry, Option.map_some, hset u,
            SessionMeta.setLifecycle, if_neg hw', ← hr]
          rw [← hr] at hw'
          simp [SessionMeta.withActive, SessionMeta.setStatus] at hw' ⊢
          exact hw'
    · obtain ⟨r, -, hr⟩ := Option.map_eq_some_iff.1 hw
      have hw' : w.lifecycle.isExited := by
        rw [← hr]
        rfl
      obtain ⟨e', he', -, hmark, -⟩ := after_onEntry_of_exited hbs hw'
      left
      rw [Replica.after_concat, he', onEntry, Option.map_some, hmark x, ← hr]
      rfl
    · exact absurd hc (by simp [isStatus, isExit])

/-- Without a row for it, nothing but a creation makes the session one. -/
theorem after_onRow_none (hcs : ∀ c ∈ cs, ¬c.isCreated) : Replica.after onRow cs none = none := by
  refine Replica.after_eq_self fun c hc => ?_
  rcases c with m | u | x | _
  · exact absurd rfl (hcs _ hc)
  · rfl
  · rfl
  · rfl

theorem inPlace_of_after {v : Option SessionMeta} (hcs : ∀ c ∈ cs, ¬c.isCreated)
    (hm : Replica.after onRow cs v = some m) : InPlace cs := by
  induction cs generalizing v with
  | nil => exact fun _ h => absurd h List.not_mem_nil
  | cons c cs ih =>
    have htail : ∀ d ∈ cs, ¬d.isCreated := fun d hd => hcs d (List.mem_cons_of_mem _ hd)
    have hcs' := ih htail hm
    rcases c with m' | u | x | _
    · exact absurd rfl (hcs _ List.mem_cons_self)
    · exact List.forall_mem_cons.2 ⟨.inl rfl, hcs'⟩
    · exact List.forall_mem_cons.2 ⟨.inr rfl, hcs'⟩
    · have hnone : Replica.after onRow cs none = none := after_onRow_none htail
      exact absurd (hnone.symm.trans hm) nofun

theorem exists_last_created (h : ∃ c ∈ cs, c.isCreated) :
    ∃ as m bs, cs = as ++ created m :: bs ∧ ∀ c ∈ bs, ¬c.isCreated := by
  induction cs with
  | nil => simp at h
  | cons c cs ih =>
    by_cases hmore : ∃ d ∈ cs, d.isCreated
    · obtain ⟨as, m, bs, rfl, hbs⟩ := ih hmore
      exact ⟨c :: as, m, bs, rfl, hbs⟩
    · obtain ⟨d, hd, hcreated⟩ := h
      rcases List.mem_cons.1 hd with rfl | hd
      · rcases d with m | _ | _ | _
        · exact ⟨[], m, cs, rfl, fun c hc h => hmore ⟨c, hc, h⟩⟩
        · cases hcreated
        · cases hcreated
        · cases hcreated
      · exact absurd ⟨d, hd, hcreated⟩ hmore

/-- A row of the daemon's past, put in the store before the events of its last changes, ends as the
row that the daemon has by now. -/
theorem after_onEntry_eq {older since : List SessionChange} (v₀ : Option SessionMeta)
    (hw : Replica.after onRow older v₀ = some w) (hm : Replica.after onRow since (some w) = some m)
    (ho : StatusesInOrder w m (older ++ since) since) :
    Replica.after onEntry (older ++ since) (some w) = some m := by
  obtain ⟨hended, hdead, hlive, hopen⟩ := ho
  by_cases hcreated : ∃ c ∈ older ++ since, c.isCreated
  · -- the last creation makes the entry the row that the daemon had then
    obtain ⟨as, c, bs, hsplit, hbs⟩ := exists_last_created hcreated
    have hm' : Replica.after onRow bs (some c) = some m := by
      rw [← hw, ← Replica.after_append, hsplit, Replica.after_append] at hm
      exact hm
    rw [hsplit] at hended hdead
    obtain ⟨-, hended, hacross⟩ := List.pairwise_append.1 hended
    obtain ⟨hhead, htail⟩ := List.pairwise_cons.1 hended
    have hplace := inPlace_of_after hbs hm'
    rw [hsplit, Replica.after_append]
    refine after_onEntry_of_alike (r := c) hplace htail rfl (fun h d hd => hhead d hd h) hm'
      (fun _ => rfl) fun hne hexit => ?_
    obtain ⟨b, hb⟩ := List.exists_mem_of_ne_nil bs hne
    have hstatus : b.isStatus := (hplace b hb).resolve_right (hexit b hb)
    have hactive : m.isActive = true := by
      by_contra hdead'
      obtain ⟨d, hd, hdx⟩ := hdead (Bool.eq_false_iff.2 hdead')
        ⟨b, List.mem_append_right _ (List.mem_cons_of_mem _ hb), hstatus⟩
      rcases List.mem_append.1 hd with hd | hd
      · exact hacross d hd b (List.mem_cons_of_mem _ hb) (ends_of_isExit hdx) hstatus
      · rcases List.mem_cons.1 hd with rfl | hd
        · cases hdx
        · exact hexit d hd hdx
    refine ⟨hactive, fun d hd => ?_⟩
    refine hlive hactive (.inl hcreated) d ?_ ((hplace d hd).resolve_right (hexit d hd))
    rw [hsplit]
    exact List.mem_append_right _ (List.mem_cons_of_mem _ hd)
  · have hnone : ∀ c ∈ older ++ since, ¬c.isCreated := fun c hc h => hcreated ⟨c, hc, h⟩
    have holder := inPlace_of_after (fun c hc => hnone c (List.mem_append_left _ hc)) hw
    have hsince := inPlace_of_after (fun c hc => hnone c (List.mem_append_right _ hc)) hm
    obtain ⟨hendedO, hendedS, hacross⟩ := List.pairwise_append.1 hended
    obtain ⟨w₀, rfl⟩ : ∃ w₀, v₀ = some w₀ := by
      rcases v₀ with _ | w₀
      · rw [after_onRow_none fun c hc => hnone c (List.mem_append_left _ hc)] at hw
        cases hw
      · exact ⟨w₀, rfl⟩
    have hflag : (∀ c ∈ since, ¬c.isExit) → m.isActive = w.isActive := by
      intro hexit
      rw [isActive_after_onRow hsince hm, List.any_eq_false.2 hexit]
      simp
    have hlater : since ≠ [] → (∀ c ∈ since, ¬c.isExit) →
        m.isActive = true ∧ ∀ c ∈ since, ¬c.ends := by
      intro hne hexit
      obtain ⟨b, hb⟩ := List.exists_mem_of_ne_nil since hne
      have hstatus : b.isStatus := (hsince b hb).resolve_right (hexit b hb)
      have hactive : m.isActive = true := by
        by_contra hdead'
        obtain ⟨d, hd, hdx⟩ := hdead (Bool.eq_false_iff.2 hdead')
          ⟨b, List.mem_append_right _ hb, hstatus⟩
        rcases List.mem_append.1 hd with hd | hd
        · exact hacross d hd b hb (ends_of_isExit hdx) hstatus
        · exact hexit d hd hdx
      exact ⟨hactive, fun d hd => hlive hactive (.inr ⟨b, hb, hstatus⟩) d
        (List.mem_append_right _ hd) ((hsince d hd).resolve_right (hexit d hd))⟩
    have hclosed : w.lifecycle.isExited → ∀ c ∈ since, ¬c.isStatus :=
      fun h c hc hstatus => hopen ⟨c, hc, hstatus⟩ h
    rw [Replica.after_append]
    rcases after_onEntry_of_older holder hendedO hw with hsame | ⟨hne, hstatuses, hshown⟩
    · rw [hsame]
      exact after_onEntry_of_alike hsince hendedS rfl hclosed hm (fun _ => rfl) hlater
    · rw [hshown]
      refine after_onEntry_of_alike (r := w) hsince hendedS rfl hclosed hm (fun hnil => ?_) hlater
      -- the row is live, since a status of it is on its way and no exit
      subst hnil
      obtain ⟨b, hb⟩ := List.exists_mem_of_ne_nil older hne
      obtain rfl : w = m := Option.some.inj hm
      refine Eq.symm (of_not_not fun hdead' => ?_)
      obtain ⟨d, hd, hdx⟩ := hdead (Bool.eq_false_iff.2 hdead')
        ⟨b, List.mem_append_left _ hb, hstatuses b hb⟩
      rw [List.append_nil] at hd
      exact not_isStatus_of_isExit hdx (hstatuses d hd)

end SessionChange

end BuilderPro
