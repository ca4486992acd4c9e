import BuilderPro.Orchd.OAuth

/-!
# The accounts of sign-ins

A completed sign-in makes its account by a task of its own, and the account of a task is made for a
sign-in whose code and verifier the provider has let through (`SignIns.Accounted`).
-/

namespace BuilderPro

namespace SecretPc

/-- Whether a task has got its tokens. -/
def isIssued : SecretPc → Bool
  | .exchanged _ _ | .tokenStored _ _ _ | .stored _ | .over (.account _) => true
  | _ => false

/-- Whether the row a task makes is the pending entry's. -/
def MadeFor (p : PendingOAuth) : SecretPc → Prop
  | .stored row | .over (.account row) =>
    row.provider = p.provider ∧ row.label = p.label ∧ row.scopes = p.scopes
  | _ => True

/-- Whether the row a task makes is of a key. -/
def KeyRow : SecretPc → Prop
  | .stored row | .keyStored row => row.secretKinds = [.apikey]
  | _ => True

end SecretPc

/-- Whether two rows are of one account, as it was signed in to. -/
def AccountRow.SameSignIn (row row' : AccountRow) : Prop :=
  row.id = row'.id ∧ row.provider = row'.provider ∧ row.label = row'.label
    ∧ row.scopes = row'.scopes ∧ row.authKind = row'.authKind

theorem SecretSys.completeOAuth_made {s u : SecretSys} {o : Outcome} {p : PendingOAuth}
    {pc pc' : SecretPc} (h : s.completeOAuth o p pc = some (u, pc')) (hpc : pc.MadeFor p) :
    pc'.MadeFor p
      ∧ (pc'.isIssued = true → pc.isIssued = true ∨ pc = .start ∧ o.answer.isSome = true)
      ∧ (u.ext.accounts = s.ext.accounts ∨ ∃ row, pc' = .over (.account row)
        ∧ s.ext.accounts.insert row = some u.ext.accounts) := by
  unfold SecretSys.completeOAuth at h
  split at h
  · split at h <;> cases h
    · rename_i issued hanswer
      exact ⟨trivial, fun _ => .inr ⟨rfl, by rw [hanswer]; rfl⟩, .inl rfl⟩
    · exact ⟨trivial, fun h => by simp [SecretPc.isIssued] at h, .inl rfl⟩
  · split_ifs at h <;> cases h
    · refine ⟨?_, fun _ => .inl rfl, .inl rfl⟩
      split
      · trivial
      · exact ⟨rfl, rfl, rfl⟩
    · exact ⟨trivial, fun h => by simp [SecretPc.isIssued] at h, .inl rfl⟩
  · split_ifs at h <;> cases h
    · exact ⟨⟨rfl, rfl, rfl⟩, fun _ => .inl rfl, .inl rfl⟩
    · exact ⟨trivial, fun h => by simp [SecretPc.isIssued] at h, .inl rfl⟩
  · split_ifs at h
    rename_i row _
    simp only [Option.some.injEq, Prod.ext_iff] at h
    obtain ⟨rfl, rfl⟩ := h
    rcases SecretSys.insertAccount_cases s o row with ⟨e, heq, -⟩ | ⟨now, t, ht, heq⟩
    · rw [heq]
      exact ⟨trivial, fun h => by simp [SecretPc.isIssued] at h, .inl rfl⟩
    · rw [heq]
      exact ⟨hpc, fun _ => .inl rfl, .inr ⟨_, rfl, ht⟩⟩
  · cases h

theorem AccountRow.SameSignIn.refl (row : AccountRow) : row.SameSignIn row :=
  ⟨rfl, rfl, rfl, rfl, rfl⟩

theorem AccountRow.authKind_of_secretKinds {row : AccountRow} (h : row.secretKinds = [.apikey]) :
    row.authKind = .apikey := by
  unfold secretKinds at h
  split at h
  · simp at h
  · assumption

/-- What no sign-in does brings no account of one in. -/
theorem SecretStep.rows {s u : SecretSys} {i : ℕ} {o : Outcome} {job : SecretJob}
    {pc pc' : SecretPc} (h : SecretStep s i o job pc u pc')
    (hjob : ∀ p, job ≠ .completeOAuth p) (hpc : pc.KeyRow) :
    pc'.KeyRow ∧ ∀ row ∈ u.ext.accounts.rows, row.authKind = .oauth →
      ∃ row₀ ∈ s.ext.accounts.rows, row₀.SameSignIn row := by
  have hsame : ∀ row ∈ s.ext.accounts.rows, row.authKind = .oauth →
      ∃ row₀ ∈ s.ext.accounts.rows, row₀.SameSignIn row :=
    fun row hrow _ => ⟨row, hrow, .refl row⟩
  cases h with
  | exchanged | tokenStored | refreshStored => exact absurd rfl (hjob _)
  | keyStored _ _ hkinds => exact ⟨hkinds, hsame⟩
  | refreshing _ hrow' | restored _ hrow' =>
    refine ⟨?_, hsame⟩
    cases pc' <;> trivial
  | @inserted job pc row row' t lock hrow hid hkinds ht =>
    refine ⟨trivial, fun x hx hkind => ?_⟩
    rcases (KeyedTable.mem_insert ht).1 hx with hx | rfl
    · exact hsame x hx hkind
    · have hkey : row.secretKinds = [.apikey] := by rcases hrow with rfl | rfl <;> exact hpc
      rw [AccountRow.authKind_of_secretKinds (hkinds.trans hkey)] at hkind
      cases hkind
  | @updated id row current issued expiresAt b hcurrent =>
    refine ⟨trivial, fun x hx hkind => ?_⟩
    rcases KeyedTable.mem_replace.1 hx with ⟨rfl, -⟩ | ⟨hx, -⟩
    · exact ⟨current, (KeyedTable.lookup_eq_some.1 hcurrent).1, rfl, rfl, rfl, rfl, rfl⟩
    · exact hsame x hx hkind
  | deleted =>
    exact ⟨trivial, fun x hx hkind => hsame x (List.mem_of_mem_filter hx) hkind⟩
  | serverDeleted haccounts =>
    refine ⟨trivial, ?_⟩
    dsimp only
    rw [haccounts]
    exact hsame
  | _ => exact ⟨trivial, hsame⟩

theorem AccountRow.SameSignIn.trans {row row' row'' : AccountRow} (h : row.SameSignIn row')
    (h' : row'.SameSignIn row'') : row.SameSignIn row'' :=
  ⟨h.1.trans h'.1, h.2.1.trans h'.2.1, h.2.2.1.trans h'.2.2.1, h.2.2.2.1.trans h'.2.2.2.1,
    h.2.2.2.2.trans h'.2.2.2.2⟩

namespace SignIns

/-- Whether each account that was signed in to, but for the known ones, is some task's that has got
its tokens for the sign-in's own verifier. -/
structure Accounted (lib : OAuthLib) (granted : String → String → Option String)
    (known : String → Prop) (s : SignIns) : Prop where
  task (i : ℕ) (c : Completion) (h : s.calls i = some c) : ∃ pc,
    s.secrets.tasks[i]? = some ⟨.completeOAuth c.signIn.toPendingOAuth, pc⟩
      ∧ pc.MadeFor c.signIn.toPendingOAuth
      ∧ (pc.isIssued = true →
        granted c.config.tokenUrl c.code = some (lib.s256 c.signIn.pkceVerifier))
  job (i : ℕ) (t : SecretTask) (p : PendingOAuth) (h : s.secrets.tasks[i]? = some t)
    (hp : t.job = .completeOAuth p) : ∃ c, s.calls i = some c
  keys (i : ℕ) (t : SecretTask) (h : s.secrets.tasks[i]? = some t)
    (hjob : ∀ p, t.job ≠ .completeOAuth p) : t.pc.KeyRow
  rows (row : AccountRow) (h : row ∈ s.secrets.ext.accounts.rows) (hkind : row.authKind = .oauth) :
    known row.id ∨ ∃ i c r, s.calls i = some c
      ∧ s.secrets.tasks[i]? =
        some ⟨.completeOAuth c.signIn.toPendingOAuth, .over (.account r)⟩
      ∧ r.SameSignIn row

variable {lib : OAuthLib} {granted : String → String → Option String} {known : String → Prop}
  {s t : SignIns} {i : ℕ} {o : Outcome}

/-- Nothing happens to the tasks and the accounts. -/
theorem Accounted.congr (h : Accounted lib granted known s) (hcalls : t.calls = s.calls)
    (htasks : t.secrets.tasks = s.secrets.tasks)
    (haccounts : t.secrets.ext.accounts = s.secrets.ext.accounts) :
    Accounted lib granted known t where
  task := by rw [hcalls, htasks]; exact h.task
  job := by rw [hcalls, htasks]; exact h.job
  keys := by rw [htasks]; exact h.keys
  rows := by rw [hcalls, htasks, haccounts]; exact h.rows

theorem ne_length_of_some {tasks : List SecretTask} {x : SecretTask} (hi : tasks[i]? = some x) :
    i ≠ tasks.length :=
  Nat.ne_of_lt (List.getElem?_eq_some_iff.1 hi).1

/-- A sign-in that is taken becomes a task. -/
theorem Accounted.spawn_signIn (h : Accounted lib granted known s) (c : Completion)
    (hcalls : t.calls = Function.update s.calls s.secrets.tasks.length (some c))
    (hsecrets : t.secrets = { s.secrets with
      tasks := s.secrets.tasks ++ [⟨.completeOAuth c.signIn.toPendingOAuth, .start⟩] }) :
    Accounted lib granted known t := by
  have htasks : t.secrets.tasks =
      s.secrets.tasks ++ [⟨.completeOAuth c.signIn.toPendingOAuth, .start⟩] := by rw [hsecrets]
  have hold : ∀ j d, s.calls j = some d → t.calls j = some d := by
    intro j d hd
    obtain ⟨pc, hj, -⟩ := h.task j d hd
    rw [hcalls, Function.update_of_ne (ne_length_of_some hj), hd]
  refine ⟨fun j d hd => ?_, fun j u q hu hq => ?_, fun j u hu hjob => ?_, fun row hrow hkind => ?_⟩
  · rw [hcalls, Function.update_apply] at hd
    rw [htasks, Slots.getElem?_concat]
    split_ifs at hd ⊢ with hj
    · obtain rfl := Option.some.inj hd
      exact ⟨.start, rfl, trivial, fun h' => by simp [SecretPc.isIssued] at h'⟩
    · exact h.task j d hd
  · rw [htasks, Slots.getElem?_concat] at hu
    split_ifs at hu with hj
    · exact ⟨c, by rw [hcalls, hj, Function.update_self]⟩
    · obtain ⟨d, hd⟩ := h.job j u q hu hq
      exact ⟨d, hold j d hd⟩
  · rw [htasks, Slots.getElem?_concat] at hu
    split_ifs at hu with hj
    · obtain rfl := Option.some.inj hu
      exact absurd rfl (hjob _)
    · exact h.keys j u hu hjob
  · rw [hsecrets] at hrow
    refine (h.rows row hrow hkind).imp id fun ⟨j, d, r, hd, hj, hr⟩ => ?_
    exact ⟨j, d, r, hold j d hd,
      by rw [htasks, Slots.getElem?_concat, if_neg (ne_length_of_some hj), hj], hr⟩

/-- Another job becomes a task. -/
theorem Accounted.spawn_other (h : Accounted lib granted known s) {job : SecretJob}
    (hjob : ∀ p, job ≠ .completeOAuth p) : Accounted lib granted known { s with
      secrets := { s.secrets with tasks := s.secrets.tasks ++ [⟨job, .start⟩] } } := by
  refine ⟨fun j d hd => ?_, fun j u q hu hq => ?_, fun j u hu hjob' => ?_, fun row hrow hkind => ?_⟩
  · obtain ⟨pc, hj, hpc⟩ := h.task j d hd
    exact ⟨pc, by dsimp only; rw [Slots.getElem?_concat, if_neg (ne_length_of_some hj), hj], hpc⟩
  · dsimp only at hu
    rw [Slots.getElem?_concat] at hu
    split_ifs at hu with hj
    · obtain rfl := Option.some.inj hu
      exact absurd hq (hjob q)
    · exact h.job j u q hu hq
  · dsimp only at hu
    rw [Slots.getElem?_concat] at hu
    split_ifs at hu with hj
    · obtain rfl := Option.some.inj hu
      trivial
    · exact h.keys j u hu hjob'
  · refine (h.rows row hrow hkind).imp id fun ⟨j, d, r, hd, hj, hr⟩ => ?_
    exact ⟨j, d, r, hd,
      by dsimp only; rw [Slots.getElem?_concat, if_neg (ne_length_of_some hj), hj], hr⟩

/-- A sign-in goes on. -/
theorem Accounted.advance_signIn (h : Accounted lib granted known s) {p : PendingOAuth}
    {pc pc' : SecretPc} {u : SecretSys} (hi : s.secrets.tasks[i]? = some ⟨.completeOAuth p, pc⟩)
    (hchecked : s.Checked lib granted (.secrets (.advance i o)))
    (hstep : s.secrets.completeOAuth o p pc = some (u, pc')) :
    Accounted lib granted known { s with secrets := { u with
      tasks := s.secrets.tasks.set i ⟨.completeOAuth p, pc'⟩ } } := by
  obtain ⟨c, hc⟩ := h.job i _ p hi rfl
  obtain ⟨pc₀, htask, hmade, hgranted⟩ := h.task i c hc
  obtain ⟨rfl, rfl⟩ : p = c.signIn.toPendingOAuth ∧ pc = pc₀ := by
    have heq := Option.some.inj (hi.symm.trans htask)
    simpa using heq
  obtain ⟨hmade', hissued, haccounts⟩ := SecretSys.completeOAuth_made hstep hmade
  have hset := Slots.getElem?_set hi ⟨.completeOAuth c.signIn.toPendingOAuth, pc'⟩
  refine ⟨fun j d hd => ?_, fun j t q ht hq => ?_, fun j t ht hjob => ?_, fun row hrow hkind => ?_⟩
  · dsimp only
    rw [hset]
    split_ifs with hij
    · subst hij
      obtain rfl := Option.some.inj (hc.symm.trans hd)
      refine ⟨pc', rfl, hmade', fun h' => ?_⟩
      rcases hissued h' with hissued | ⟨hstart, hanswer⟩
      · exact hgranted hissued
      · exact hchecked c hc _ hi hstart hanswer
    · exact h.task j d hd
  · dsimp only at ht
    rw [hset] at ht
    split_ifs at ht with hij
    · exact ⟨c, hij ▸ hc⟩
    · exact h.job j t q ht hq
  · dsimp only at ht
    rw [hset] at ht
    split_ifs at ht with hij
    · obtain rfl := Option.some.inj ht
      exact absurd rfl (hjob _)
    · exact h.keys j t ht hjob
  · have hold : row ∈ s.secrets.ext.accounts.rows → known row.id ∨ ∃ j d r, s.calls j = some d
        ∧ (s.secrets.tasks.set i ⟨.completeOAuth c.signIn.toPendingOAuth, pc'⟩)[j]? =
          some ⟨.completeOAuth d.signIn.toPendingOAuth, .over (.account r)⟩
        ∧ r.SameSignIn row := by
      intro hrow
      refine (h.rows row hrow hkind).imp id fun ⟨j, d, r, hd, hj, hr⟩ => ⟨j, d, r, hd, ?_, hr⟩
      rw [hset, if_neg]
      · exact hj
      · rintro rfl
        -- a sign-in that is over does not go on
        have heq := Option.some.inj (hi.symm.trans hj)
        rw [(SecretTask.mk.inj heq).2] at hstep
        cases hstep
    rcases haccounts with haccounts | ⟨row', rfl, hinsert⟩
    · dsimp only at hrow
      rw [haccounts] at hrow
      exact hold hrow
    · rcases (KeyedTable.mem_insert hinsert).1 hrow with hrow | rfl
      · exact hold hrow
      · exact .inr ⟨i, c, row, hc, by rw [hset, if_pos rfl], .refl row⟩

/-- Another job goes on. -/
theorem Accounted.advance_other (h : Accounted lib granted known s) {job : SecretJob}
    {pc pc' : SecretPc} {u : SecretSys} (hi : s.secrets.tasks[i]? = some ⟨job, pc⟩)
    (hjob : ∀ p, job ≠ .completeOAuth p) (hstep : SecretStep s.secrets i o job pc u pc') :
    Accounted lib granted known { s with secrets := { u with
      tasks := s.secrets.tasks.set i ⟨job, pc'⟩ } } := by
  obtain ⟨hkey, hrows⟩ := hstep.rows hjob (h.keys i _ hi hjob)
  have hset := Slots.getElem?_set hi ⟨job, pc'⟩
  have hother : ∀ {j p pc₀}, s.secrets.tasks[j]? = some ⟨.completeOAuth p, pc₀⟩ → j ≠ i := by
    rintro j p pc₀ hj rfl
    have heq := Option.some.inj (hi.symm.trans hj)
    exact hjob p (SecretTask.mk.inj heq).1
  refine ⟨fun j d hd => ?_, fun j t q ht hq => ?_, fun j t ht hjob' => ?_, fun row hrow hkind => ?_⟩
  · obtain ⟨pc₀, hj, hpc₀⟩ := h.task j d hd
    exact ⟨pc₀, by dsimp only; rw [hset, if_neg (hother hj), hj], hpc₀⟩
  · dsimp only at ht
    rw [hset] at ht
    split_ifs at ht with hij
    · obtain rfl := Option.some.inj ht
      exact absurd hq (hjob q)
    · exact h.job j t q ht hq
  · dsimp only at ht
    rw [hset] at ht
    split_ifs at ht with hij
    · obtain rfl := Option.some.inj ht
      exact hkey
    · exact h.keys j t ht hjob'
  · obtain ⟨row₀, hrow₀, hsame⟩ := hrows row hrow hkind
    have hkind₀ : row₀.authKind = .oauth := hsame.2.2.2.2.trans hkind
    refine (h.rows row₀ hrow₀ hkind₀).imp (fun hk => hsame.1 ▸ hk) ?_
    rintro ⟨j, d, r, hd, hj, hr⟩
    exact ⟨j, d, r, hd, by dsimp only; rw [hset, if_neg (hother hj), hj], hr.trans hsame⟩

theorem Accounted.secrets (h : Accounted lib granted known s) {a : SecretAction}
    (ha : ∀ p, a ≠ .request (.completeOAuth p)) (hchecked : s.Checked lib granted (.secrets a))
    {u : SecretSys} (hstep : s.secrets.step a = some u) :
    Accounted lib granted known { s with secrets := u } := by
  cases a with
  | domain d =>
    simp only [SecretSys.step] at hstep
    split_ifs at hstep
    obtain rfl := Option.some.inj hstep
    exact h.congr rfl rfl rfl
  | tick ms =>
    obtain rfl := Option.some.inj hstep
    exact h.congr rfl rfl rfl
  | addServer new id =>
    simp only [SecretSys.step] at hstep
    split_ifs at hstep
    split at hstep
    · rename_i e row he
      obtain rfl := Option.some.inj hstep
      obtain ⟨-, servers, -, he⟩ := ExtStore.addMcpServer_eq_ok he
      dsimp only at he
      subst he
      exact h.congr rfl rfl rfl
    · obtain rfl := Option.some.inj hstep
      exact h
  | request job =>
    obtain rfl := Option.some.inj hstep
    exact h.spawn_other fun p hp => ha p (by rw [hp])
  | advance i o =>
    obtain ⟨⟨job, pc⟩, v, pc', hi, hnext, rfl⟩ := SecretSys.advance_eq_some hstep
    by_cases hjob : ∃ p, job = .completeOAuth p
    · obtain ⟨p, rfl⟩ := hjob
      exact h.advance_signIn hi hchecked hnext
    · exact h.advance_other hi (fun p hp => hjob ⟨p, hp⟩) (SecretSys.next_step hnext)

theorem Accounted.completeOAuth (h : Accounted lib granted known s) (state code : String)
    (httpError : Option String) : Accounted lib granted known
      { (s.completeOAuth lib state code httpError).1 with
        answered := (s.completeOAuth lib state code httpError).1.answered
          ++ [(state, (s.completeOAuth lib state code httpError).2)] } := by
  rcases completeOAuth_cases lib s state code httpError with
    ⟨-, heq⟩ | ⟨signIn, -, ⟨e, -, heq⟩ | ⟨config, heq⟩⟩
  · rw [heq]
    exact h.congr rfl rfl rfl
  · rw [heq]
    exact h.congr rfl rfl rfl
  · rw [heq]
    exact h.spawn_signIn ⟨state, code, signIn, config⟩ rfl rfl

end SignIns

end BuilderPro
