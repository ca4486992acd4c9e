import BuilderPro.Orchd.SecretSteps

/-!
# The secrets of the accounts

Every secret of an account is one of its row or of a task that is about to insert the row
(`AccountInv.owned`).  A step that keeps its secrets keeps that (`AccountInv.advance`).
-/

namespace BuilderPro

/-- Whether every secret is owned, and who else is about it: the ids that tasks have drawn are
theirs alone, a delete finds every secret that is there, and a refresh is of an account with a
refresh token. -/
structure AccountInv (s : SecretSys) : Prop where
  owned : ∀ id kind, s.Stored id kind → s.Owner id kind
  issued : ∀ t ∈ s.tasks, t.pc.BringsIssued
  apart : ∀ (i j : ℕ) (t u : SecretTask) (id : String), s.tasks[i]? = some t →
    s.tasks[j]? = some u → t.pc.draws = some id → u.pc.draws = some id → i = j
  drawn : ∀ t ∈ s.tasks, ∀ id, t.pc.draws = some id →
    s.ext.accounts.lookup id = none ∧ ∀ u ∈ s.tasks, u.touches ≠ some id
  erasing : ∀ id todo, ⟨.deleteAccount id, .erasing todo⟩ ∈ s.tasks →
    (s.ext.accounts.lookup id).isSome ∧ ∀ kind, s.Stored id kind → kind ∈ todo
  rows : ∀ t ∈ s.tasks, ∀ row, t.pc.row? = some row → ∀ current,
    s.ext.accounts.lookup row.id = some current →
      current.authKind = .oauth ∧ current.refreshRef.isSome
  gone : ∀ id, ⟨.deleteAccount id, .over .ack⟩ ∈ s.tasks → s.ext.accounts.lookup id = none

/-- What a task may come to, for the accounts. -/
structure AccountMove (s s' : SecretSys) (job : SecretJob) (pc pc' : SecretPc) : Prop where
  brings : ∀ id kinds, pc.brings = some (id, kinds) →
    ∃ kinds', pc'.brings = some (id, kinds') ∧ kinds ⊆ kinds'
  issued : pc'.BringsIssued
  draws : ∀ id, pc'.draws = some id → pc.draws = some id ∨ s.Unused id
  touches : ∀ id, SecretTask.touches ⟨job, pc'⟩ = some id →
    SecretTask.touches ⟨job, pc⟩ = some id ∨ ∀ u ∈ s.tasks, u.pc.draws ≠ some id
  apart : ∀ id, pc'.draws = some id → SecretTask.touches ⟨job, pc'⟩ ≠ some id
  erasing : ∀ id todo, job = .deleteAccount id → pc' = .erasing todo →
    (s.ext.accounts.lookup id).isSome ∧ ∀ kind, s'.Stored id kind → kind ∈ todo
  rows : ∀ row, pc'.row? = some row → ∀ current, s.ext.accounts.lookup row.id = some current →
    current.authKind = .oauth ∧ current.refreshRef.isSome
  notGone : ∀ id, job = .deleteAccount id → pc' ≠ .over .ack

namespace SecretTask

/-- A delete that has done with a secret has found the account. -/
theorem touches_of_hasErased {u : SecretTask} {id : String} {kind : SecretKind}
    (h : u.hasErased id kind = true) : u.touches = some id := by
  unfold hasErased at h
  split at h
  · simp only [Bool.and_eq_true, beq_iff_eq] at h
    simp [touches, h.1]
  · cases h

theorem touches_over {job : SecretJob} {r : SecretReply} {id : String}
    (h : touches ⟨job, .over r⟩ = some id) : job = .deleteAccount id ∧ r = .ack := by
  unfold touches at h
  split at h
  · rename_i heq
    cases heq
  · rename_i heq
    cases heq
    cases h
    exact ⟨rfl, rfl⟩
  · rename_i heq
    cases heq
    cases h

/-- A refresh has found the account of the row it has read. -/
theorem touches_of_row {u : SecretTask} {row : AccountRow} (h : u.pc.row? = some row) :
    u.touches = some row.id := by
  unfold touches
  split
  · cases h
  · cases h
  · exact congrArg (Option.map AccountRow.id) h

end SecretTask

namespace AccountInv

variable {s s' : SecretSys} {i : ℕ} {t u v : SecretTask} {pc : SecretPc}

theorem mem_set (hi : s.tasks[i]? = some t) (hu : u ∈ s.tasks) :
    u = t ∨ u ∈ s.tasks.set i v := by
  obtain ⟨j, hj⟩ := List.mem_iff_getElem?.1 hu
  by_cases hij : i = j
  · subst hij
    exact .inl (Option.some.inj (hj.symm.trans hi))
  · exact .inr (List.mem_of_getElem? (i := j) (by rw [List.getElem?_set_ne hij, hj]))

theorem congr (hI : AccountInv s) (haccounts : s'.ext.accounts = s.ext.accounts)
    (hkeychain : s'.keychain = s.keychain) (htasks : s'.tasks = s.tasks) : AccountInv s' := by
  obtain ⟨howned, hissued, hapart, hdrawn, herasing, hrows, hgone⟩ := hI
  refine ⟨?_, ?_, ?_, ?_, ?_, ?_, ?_⟩
  · simpa only [SecretSys.Stored, SecretSys.Owner, htasks, haccounts, hkeychain] using howned
  · simpa only [htasks] using hissued
  · simpa only [htasks] using hapart
  · simpa only [htasks, haccounts] using hdrawn
  · simpa only [SecretSys.Stored, htasks, haccounts, hkeychain] using herasing
  · simpa only [htasks, haccounts] using hrows
  · simpa only [htasks, haccounts] using hgone

/-- A step that leaves the accounts as they are. -/
theorem set (hI : AccountInv s) (hi : s.tasks[i]? = some t)
    (htasks : s'.tasks = s.tasks.set i ⟨t.job, pc⟩)
    (haccounts : s'.ext.accounts = s.ext.accounts)
    (hstored : ∀ id kind, s'.Stored id kind → s.Stored id kind
      ∨ (s'.Owner id kind ∧ ∀ u ∈ s.tasks, u.hasErased id kind = false))
    (hmove : AccountMove s s' t.job t.pc pc) : AccountInv s' := by
  have ht := List.mem_of_getElem? hi
  have hlt : i < s.tasks.length := (List.getElem?_eq_some_iff.1 hi).1
  have hmem : ∀ u ∈ s'.tasks, u ∈ s.tasks ∨ u = ⟨t.job, pc⟩ := fun u hu =>
    List.mem_or_eq_of_mem_set (htasks ▸ hu)
  have hget : ∀ {j : ℕ} {u : SecretTask} {id : String}, s'.tasks[j]? = some u →
      u.pc.draws = some id →
      (∃ v, s.tasks[j]? = some v ∧ v.pc.draws = some id) ∨ (j = i ∧ s.Unused id) := by
    intro j u id hu hdraws
    rw [htasks, List.getElem?_set] at hu
    split_ifs at hu with hij
    · cases hu
      subst hij
      rcases hmove.draws id hdraws with h | h
      · exact .inl ⟨t, hi, h⟩
      · exact .inr ⟨rfl, h⟩
    · exact .inl ⟨u, hu, hdraws⟩
  constructor
  case owned =>
    intro id kind h
    rcases hstored id kind h with h | ⟨h, -⟩
    · rcases hI.owned id kind h with ⟨row, hrow, hkind⟩ | ⟨u, hu, kinds, hbrings, hkind⟩
      · exact .inl ⟨row, haccounts ▸ hrow, hkind⟩
      · refine .inr ?_
        rw [htasks]
        rcases mem_set (v := ⟨t.job, pc⟩) hi hu with rfl | hu
        · obtain ⟨kinds', hbrings', hsub⟩ := hmove.brings id kinds hbrings
          exact ⟨⟨u.job, pc⟩, List.mem_set hlt _, kinds', hbrings', hsub hkind⟩
        · exact ⟨u, hu, kinds, hbrings, hkind⟩
    · exact h
  case issued =>
    intro u hu
    rcases hmem u hu with hu | rfl
    · exact hI.issued u hu
    · exact hmove.issued
  case apart =>
    intro j k u v id hu hv hdraws hdraws'
    rcases hget hu hdraws with ⟨x, hx, hxdraws⟩ | ⟨rfl, hunused⟩
    · rcases hget hv hdraws' with ⟨y, hy, hydraws⟩ | ⟨-, hunused⟩
      · exact hI.apart j k x y id hx hy hxdraws hydraws
      · exact absurd hxdraws (hunused.2 x (List.mem_of_getElem? hx)).2
    · rcases hget hv hdraws' with ⟨y, hy, hydraws⟩ | ⟨rfl, -⟩
      · exact absurd hydraws (hunused.2 y (List.mem_of_getElem? hy)).2
      · rfl
  case drawn =>
    intro u hu id hdraws
    rw [haccounts]
    obtain ⟨j, hj⟩ := List.mem_iff_getElem?.1 hu
    rcases hget hj hdraws with ⟨x, hx, hxdraws⟩ | ⟨rfl, hunused⟩
    · have hx := List.mem_of_getElem? hx
      refine ⟨(hI.drawn x hx id hxdraws).1, fun v hv htouches => ?_⟩
      rcases hmem v hv with hv | rfl
      · exact (hI.drawn x hx id hxdraws).2 v hv htouches
      · rcases hmove.touches id htouches with h | h
        · exact (hI.drawn x hx id hxdraws).2 t ht h
        · exact h x hx hxdraws
    · refine ⟨hunused.1, fun v hv htouches => ?_⟩
      rcases hmem v hv with hv | rfl
      · exact (hunused.2 v hv).1 htouches
      · rw [htasks, List.getElem?_set_self hlt] at hj
        cases hj
        exact hmove.apart id hdraws htouches
  case erasing =>
    intro id todo hu
    rw [haccounts]
    rcases hmem _ hu with hu | hu
    · obtain ⟨hrow, htodo⟩ := hI.erasing id todo hu
      refine ⟨hrow, fun kind h => ?_⟩
      rcases hstored id kind h with h | ⟨-, h⟩
      · exact htodo kind h
      · simpa [SecretTask.hasErased] using h _ hu
    · simp only [SecretTask.mk.injEq] at hu
      exact hmove.erasing id todo hu.1.symm hu.2.symm
  case rows =>
    intro u hu row hrow
    rw [haccounts]
    rcases hmem u hu with hu | rfl
    · exact hI.rows u hu row hrow
    · exact hmove.rows row hrow
  case gone =>
    intro id hu
    rw [haccounts]
    rcases hmem _ hu with hu | hu
    · exact hI.gone id hu
    · simp only [SecretTask.mk.injEq] at hu
      exact absurd hu.2.symm (hmove.notGone id hu.1.symm)

/-- A task that ends with a step on the accounts. -/
theorem settle {r : SecretReply} (hI : AccountInv s) (hi : s.tasks[i]? = some t)
    (htasks : s'.tasks = s.tasks.set i ⟨t.job, .over r⟩) (hkeychain : s'.keychain = s.keychain)
    (howned : ∀ id kind, s.Stored id kind → s'.Owner id kind)
    (hnone : ∀ (j : ℕ) (u : SecretTask) (id : String), j ≠ i → s.tasks[j]? = some u →
      u.pc.draws = some id → s'.ext.accounts.lookup id = none)
    (hsome : ∀ (j : ℕ) (id : String) (todo : List SecretKind), j ≠ i →
      s.tasks[j]? = some ⟨.deleteAccount id, .erasing todo⟩ →
        (s'.ext.accounts.lookup id).isSome)
    (hrows : ∀ u ∈ s.tasks, ∀ row, u.pc.row? = some row → ∀ current,
      s'.ext.accounts.lookup row.id = some current →
        current.authKind = .oauth ∧ current.refreshRef.isSome)
    (hgone : ∀ id, ⟨.deleteAccount id, .over .ack⟩ ∈ s.tasks → s'.ext.accounts.lookup id = none)
    (hack : ∀ id, t.job = .deleteAccount id → r = .ack →
      t.touches = some id ∧ s'.ext.accounts.lookup id = none) : AccountInv s' := by
  have ht := List.mem_of_getElem? hi
  have hget : ∀ {j : ℕ} {u : SecretTask}, s'.tasks[j]? = some u →
      (j ≠ i ∧ s.tasks[j]? = some u) ∨ u = ⟨t.job, .over r⟩ := by
    intro j u hu
    rw [htasks, List.getElem?_set] at hu
    split_ifs at hu with hij
    · exact .inr (Option.some.inj hu).symm
    · exact .inl ⟨fun h => hij h.symm, hu⟩
  have hmem : ∀ {u : SecretTask}, u ∈ s'.tasks →
      (∃ j, j ≠ i ∧ s.tasks[j]? = some u) ∨ u = ⟨t.job, .over r⟩ := by
    intro u hu
    obtain ⟨j, hj⟩ := List.mem_iff_getElem?.1 hu
    rcases hget hj with ⟨hne, hj⟩ | hu
    · exact .inl ⟨j, hne, hj⟩
    · exact .inr hu
  have hstored : ∀ {id : String} {kind : SecretKind}, s'.Stored id kind → s.Stored id kind :=
    fun h => by rwa [SecretSys.Stored, hkeychain] at h
  constructor
  case owned => exact fun id kind h => howned id kind (hstored h)
  case issued =>
    intro u hu
    rcases hmem hu with ⟨j, -, hj⟩ | rfl
    · exact hI.issued u (List.mem_of_getElem? hj)
    · trivial
  case apart =>
    intro j k u v id hu hv hdraws hdraws'
    rcases hget hu with ⟨-, hu⟩ | rfl
    · rcases hget hv with ⟨-, hv⟩ | rfl
      · exact hI.apart j k u v id hu hv hdraws hdraws'
      · cases hdraws'
    · cases hdraws
  case drawn =>
    intro u hu id hdraws
    rcases hmem hu with ⟨j, hne, hj⟩ | rfl
    · have hu := List.mem_of_getElem? hj
      refine ⟨hnone j u id hne hj hdraws, fun v hv htouches => ?_⟩
      rcases hmem hv with ⟨k, -, hk⟩ | rfl
      · exact (hI.drawn u hu id hdraws).2 v (List.mem_of_getElem? hk) htouches
      · obtain ⟨hjob, hr⟩ := SecretTask.touches_over htouches
        exact (hI.drawn u hu id hdraws).2 t ht (hack id hjob hr).1
    · cases hdraws
  case erasing =>
    intro id todo hu
    rcases hmem hu with ⟨j, hne, hj⟩ | hu
    · obtain ⟨-, htodo⟩ := hI.erasing id todo (List.mem_of_getElem? hj)
      exact ⟨hsome j id todo hne hj, fun kind h => htodo kind (hstored h)⟩
    · simp at hu
  case rows =>
    intro u hu row hrow
    rcases hmem hu with ⟨j, -, hj⟩ | rfl
    · exact hrows u (List.mem_of_getElem? hj) row hrow
    · cases hrow
  case gone =>
    intro id hu
    rcases hmem hu with ⟨j, -, hj⟩ | hu
    · exact hgone id (List.mem_of_getElem? hj)
    · simp only [SecretTask.mk.injEq, SecretPc.over.injEq] at hu
      exact (hack id hu.1.symm hu.2.symm).2

/-- A row goes in under the id its task has drawn. -/
theorem inserted (hI : AccountInv s) (hi : s.tasks[i]? = some t) {row row' : AccountRow}
    {accounts : KeyedTable AccountRow.id} {lock : Option ℕ}
    (hpc : t.pc = .stored row ∨ t.pc = .keyStored row) (hid : row'.id = row.id)
    (hkinds : row'.secretKinds = row.secretKinds)
    (ht : s.ext.accounts.insert row' = some accounts) :
    AccountInv { s with
      ext := { s.ext with accounts := accounts }, lock := lock
      tasks := s.tasks.set i ⟨t.job, .over (.account row')⟩ } := by
  have hmem := List.mem_of_getElem? hi
  have hdraws : t.pc.draws = some row.id := by
    rcases hpc with h | h <;> rw [h] <;> rfl
  have hbrings : t.pc.brings = some (row.id, row.secretKinds) := by
    rcases hpc with h | h <;> rw [h] <;> rfl
  have hlookup : ∀ id, accounts.lookup id = if id = row.id then some row' else
      s.ext.accounts.lookup id := fun id => by rw [KeyedTable.lookup_insert ht, hid]
  have huntouched := (hI.drawn t hmem row.id hdraws).2
  refine hI.settle hi rfl rfl (fun id kind h => ?_) (fun j u id hne hj hdraws' => ?_)
    (fun j id todo hne hj => ?_) (fun u hu row₀ hrow current hcurrent => ?_) (fun id hu => ?_)
    fun id _ h => by cases h
  · rcases hI.owned id kind h with ⟨x, hx, hkind⟩ | ⟨u, hu, kinds, hb, hkind⟩
    · refine .inl ⟨x, ?_, hkind⟩
      have hne : id ≠ row.id := by
        rintro rfl
        rw [(hI.drawn t hmem row.id hdraws).1] at hx
        cases hx
      simpa [hlookup, hne] using hx
    · rcases mem_set (v := ⟨t.job, .over (.account row')⟩) hi hu with rfl | hu
      · rw [hbrings] at hb
        cases hb
        exact .inl ⟨row', by simp [hlookup], hkinds ▸ hkind⟩
      · exact .inr ⟨u, hu, kinds, hb, hkind⟩
  · have hneid : id ≠ row.id := by
      rintro rfl
      exact hne (hI.apart j i u t row.id hj hi hdraws' hdraws)
    simpa [hlookup, hneid] using (hI.drawn u (List.mem_of_getElem? hj) id hdraws').1
  · simp only [hlookup]
    split_ifs
    · rfl
    · exact (hI.erasing id todo (List.mem_of_getElem? hj)).1
  · have hne : row₀.id ≠ row.id := fun h =>
      huntouched u hu (by rw [SecretTask.touches_of_row hrow, h])
    simp only [hlookup, hne, if_false] at hcurrent
    exact hI.rows u hu row₀ hrow current hcurrent
  · have hne : id ≠ row.id := by
      rintro rfl
      exact huntouched _ hu rfl
    simpa [hlookup, hne] using hI.gone id hu

/-- A row is updated with the tokens of an exchange. -/
theorem updated (hI : AccountInv s) (hi : s.tasks[i]? = some t) {row current : AccountRow}
    {expiresAt : Option ℤ} {b : Bool} {now : ℤ} {bearer : String}
    (hpc : t.pc.row? = some row) (hcurrent : s.ext.accounts.lookup row.id = some current) :
    AccountInv { s with
      ext := { s.ext with
        accounts := s.ext.accounts.replace (current.updateTokens expiresAt b now) }
      tasks := s.tasks.set i ⟨t.job, .over (.token bearer)⟩ } := by
  have hmem := List.mem_of_getElem? hi
  have hid : current.id = row.id := KeyedTable.key_eq hcurrent
  obtain ⟨hkind, hrefresh⟩ := hI.rows t hmem row hpc current hcurrent
  have hkept : (current.updateTokens expiresAt b now).authKind = .oauth
      ∧ (current.updateTokens expiresAt b now).refreshRef.isSome := by
    refine ⟨hkind, ?_⟩
    unfold AccountRow.updateTokens
    dsimp only
    split_ifs
    · rfl
    · exact hrefresh
  have hlookup : ∀ id, (s.ext.accounts.replace (current.updateTokens expiresAt b now)).lookup id
      = if id = row.id then some (current.updateTokens expiresAt b now)
        else s.ext.accounts.lookup id := by
    intro id
    rw [KeyedTable.lookup_replace (y := current) (by simpa [hid] using hcurrent)]
    simp [hid]
  have hnone : ∀ id, s.ext.accounts.lookup id = none →
      (s.ext.accounts.replace (current.updateTokens expiresAt b now)).lookup id = none := by
    intro id h
    rw [hlookup, if_neg (by rintro rfl; rw [h] at hcurrent; cases hcurrent), h]
  refine hI.settle hi rfl rfl (fun id kind h => ?_) (fun j u id _ hj hdraws => ?_)
    (fun j id todo _ hj => ?_) (fun u hu row₀ hrow x hx => ?_) (fun id hu => ?_)
    fun id _ h => by cases h
  · rcases hI.owned id kind h with ⟨x, hx, hmemKind⟩ | ⟨u, hu, kinds, hb, hmemKind⟩
    · refine .inl ?_
      simp only [hlookup]
      split_ifs with heq
      · obtain rfl : x = current := Option.some.inj (hx.symm.trans (heq ▸ hcurrent))
        refine ⟨_, rfl, ?_⟩
        simpa [AccountRow.secretKinds, hkind, hrefresh, hkept] using hmemKind
      · exact ⟨x, hx, hmemKind⟩
    · rcases mem_set (v := ⟨t.job, .over (.token bearer)⟩) hi hu with rfl | hu
      · rw [SecretPc.brings_of_row hpc] at hb
        cases hb
      · exact .inr ⟨u, hu, kinds, hb, hmemKind⟩
  · exact hnone id (hI.drawn u (List.mem_of_getElem? hj) id hdraws).1
  · simp only [hlookup]
    split_ifs
    · rfl
    · exact (hI.erasing id todo (List.mem_of_getElem? hj)).1
  · simp only [hlookup] at hx
    split_ifs at hx
    · cases hx
      exact hkept
    · exact hI.rows u hu row₀ hrow x hx
  · exact hnone id (hI.gone id hu)

/-- A row goes once its secrets have. -/
theorem deleted (hI : AccountInv s) (hL : s.LockInv) {id : String} {lock : Option ℕ}
    (hi : s.tasks[i]? = some ⟨.deleteAccount id, .erasing []⟩) :
    AccountInv { s with
      ext := s.ext.eraseAccount id, lock := lock
      tasks := s.tasks.set i ⟨.deleteAccount id, .over .ack⟩ } := by
  have hmem := List.mem_of_getElem? hi
  have hlookup : ∀ id', (s.ext.eraseAccount id).accounts.lookup id'
      = if id' = id then none else s.ext.accounts.lookup id' := fun id' => KeyedTable.lookup_erase
  have hnone : ∀ id', s.ext.accounts.lookup id' = none →
      (s.ext.eraseAccount id).accounts.lookup id' = none := by
    intro id' h
    rw [hlookup, h, ite_self]
  refine hI.settle hi rfl rfl (fun id' kind h => ?_) (fun j u id' _ hj hdraws => ?_)
    (fun j id' todo hne hj => ?_) (fun u hu row hrow x hx => ?_) (fun id' hu => ?_)
    fun id' hjob _ => ?_
  · have hne : id' ≠ id := by
      rintro rfl
      exact absurd ((hI.erasing id' [] hmem).2 kind h) (by simp)
    rcases hI.owned id' kind h with ⟨x, hx, hkind⟩ | ⟨u, hu, kinds, hb, hkind⟩
    · exact .inl ⟨x, by simpa [hlookup, hne] using hx, hkind⟩
    · rcases mem_set (v := ⟨.deleteAccount id, .over .ack⟩) hi hu with rfl | hu
      · cases hb
      · exact .inr ⟨u, hu, kinds, hb, hkind⟩
  · exact hnone id' (hI.drawn u (List.mem_of_getElem? hj) id' hdraws).1
  · -- Two deletes do not have the lock at once.
    have hlock := hL j _ hj rfl
    rw [hL i _ hi rfl] at hlock
    exact absurd (Option.some.inj hlock).symm hne
  · simp only [hlookup] at hx
    split_ifs at hx
    exact hI.rows u hu row hrow x hx
  · exact hnone id' (hI.gone id' hu)
  · cases hjob
    exact ⟨rfl, by simp [hlookup]⟩

end AccountInv

namespace AccountMove

variable {s s' : SecretSys} {job : SecretJob} {pc pc' : SecretPc}

/-- A task that has found no account. -/
theorem apartFromRows (hbrings : ∀ id kinds, pc.brings = some (id, kinds) →
      ∃ kinds', pc'.brings = some (id, kinds') ∧ kinds ⊆ kinds')
    (hissued : pc'.BringsIssued)
    (hdraws : ∀ id, pc'.draws = some id → pc.draws = some id ∨ s.Unused id)
    (htouches : SecretTask.touches ⟨job, pc'⟩ = none) : AccountMove s s' job pc pc' where
  brings := hbrings
  issued := hissued
  draws := hdraws
  touches _ h := by rw [htouches] at h; cases h
  apart _ _ h := by rw [htouches] at h; cases h
  erasing _ _ hjob hpc := by subst hjob hpc; cases htouches
  rows _ h := by rw [SecretTask.touches_of_row h] at htouches; cases htouches
  notGone _ hjob hpc := by subst hjob hpc; cases htouches

/-- A task that has drawn no id either. -/
theorem idle (hbrings : pc.brings = none) (hissued : pc'.BringsIssued) (hdraws : pc'.draws = none)
    (htouches : SecretTask.touches ⟨job, pc'⟩ = none) : AccountMove s s' job pc pc' :=
  .apartFromRows (fun _ _ h => by rw [hbrings] at h; cases h) hissued
    (fun _ h => by rw [hdraws] at h; cases h) htouches

/-- A task that has read a row goes on with it. -/
theorem reading {row : AccountRow} (hI : AccountInv s) (ht : ⟨job, pc⟩ ∈ s.tasks)
    (hrow : pc.row? = some row) (hrow' : pc'.row? = some row) (hdraws : pc'.draws = none) :
    AccountMove s s' job pc pc' where
  brings _ _ h := by rw [SecretPc.brings_of_row hrow] at h; cases h
  issued := by unfold SecretPc.BringsIssued; split <;> trivial
  draws _ h := by rw [hdraws] at h; cases h
  touches id h := by
    rw [SecretTask.touches_of_row hrow'] at h
    exact .inl (by rw [SecretTask.touches_of_row hrow, h])
  apart _ h := by rw [hdraws] at h; cases h
  erasing _ _ _ hpc := by subst hpc; cases hrow'
  rows x hx := by
    obtain rfl : x = row := Option.some.inj (hx.symm.trans hrow')
    exact hI.rows _ ht x hrow
  notGone _ _ hpc := by subst hpc; cases hrow'

/-- A task that has found an account, which is nobody's to draw. -/
theorem finding {id : String} (hI : AccountInv s) (hsome : (s.ext.accounts.lookup id).isSome)
    (hbrings : pc.brings = none) (hdraws : pc'.draws = none) (hissued : pc'.BringsIssued)
    (htouches : SecretTask.touches ⟨job, pc'⟩ = some id)
    (herasing : ∀ todo, job = .deleteAccount id → pc' = .erasing todo →
      ∀ kind, s'.Stored id kind → kind ∈ todo)
    (hrows : ∀ row, pc'.row? = some row → row.authKind = .oauth ∧ row.refreshRef.isSome
      ∧ s.ext.accounts.lookup row.id = some row)
    (hack : ∀ r, pc' ≠ .over r) : AccountMove s s' job pc pc' where
  brings _ _ h := by rw [hbrings] at h; cases h
  issued := hissued
  draws _ h := by rw [hdraws] at h; cases h
  touches id' h := by
    obtain rfl : id = id' := Option.some.inj (htouches.symm.trans h)
    refine .inr fun u hu hdraws => ?_
    rw [(hI.drawn u hu id hdraws).1] at hsome
    cases hsome
  apart _ h := by rw [hdraws] at h; cases h
  erasing id' todo hjob hpc := by
    obtain rfl : id' = id := by
      subst hjob hpc
      exact Option.some.inj htouches
    exact ⟨hsome, herasing todo hjob hpc⟩
  rows row hrow current hcurrent := by
    obtain ⟨hkind, hrefresh, hlookup⟩ := hrows row hrow
    obtain rfl : row = current := Option.some.inj (hlookup.symm.trans hcurrent)
    exact ⟨hkind, hrefresh⟩
  notGone _ _ := hack .ack

end AccountMove

namespace SecretSys

variable {s : SecretSys} {id id' secret : String} {kind kind' : SecretKind}

theorem stored_store (h : (s.store (accountRef id kind.name) secret).Stored id' kind') :
    s.Stored id' kind' ∨ (id' = id ∧ kind' = kind) := by
  unfold Stored at h
  rw [store_keychain] at h
  split_ifs at h with heq
  · exact .inr (accountRef_inj.1 heq)
  · exact .inl h

theorem stored_erase (h : (s.erase (accountRef id kind.name)).Stored id' kind') :
    s.Stored id' kind' ∧ ¬(id' = id ∧ kind' = kind) := by
  unfold Stored at h
  rw [erase_keychain] at h
  split_ifs at h with heq
  · exact absurd rfl h
  · exact ⟨h, fun hsame => heq (accountRef_inj.2 hsame)⟩

theorem stored_storeBearer (h : (s.store (mcpBearerRef id) secret).Stored id' kind') :
    s.Stored id' kind' := by
  rwa [Stored, store_keychain, if_neg (accountRef_ne_mcpBearerRef _ _ _)] at h

theorem stored_eraseBearer (h : (s.erase (mcpBearerRef id)).Stored id' kind') :
    s.Stored id' kind' := by
  rwa [Stored, erase_keychain, if_neg (accountRef_ne_mcpBearerRef _ _ _)] at h

end SecretSys

namespace AccountInv

variable {s u : SecretSys} {i : ℕ} {o : Outcome} {t : SecretTask} {pc : SecretPc}

/-- A step that has to do with no account. -/
theorem set_idle (hI : AccountInv s) (hi : s.tasks[i]? = some t)
    (haccounts : u.ext.accounts = s.ext.accounts)
    (hstored : ∀ id kind, u.Stored id kind → s.Stored id kind) (hbrings : t.pc.brings = none)
    (hissued : pc.BringsIssued) (hdraws : pc.draws = none)
    (htouches : SecretTask.touches ⟨t.job, pc⟩ = none) :
    AccountInv { u with tasks := s.tasks.set i ⟨t.job, pc⟩ } :=
  hI.set hi rfl haccounts (fun id kind h => .inl (hstored id kind h))
    (.idle hbrings hissued hdraws htouches)

/-- An id that is drawn has been touched by no delete. -/
theorem not_hasErased (hI : AccountInv s) (ht : t ∈ s.tasks) {id : String} {kind : SecretKind}
    (hdraws : t.pc.draws = some id) : ∀ v ∈ s.tasks, v.hasErased id kind = false := by
  intro v hv
  by_contra h
  exact (hI.drawn t ht id hdraws).2 v hv (SecretTask.touches_of_hasErased (by simpa using h))

theorem advance (hI : AccountInv s) (hL : s.LockInv) (hi : s.tasks[i]? = some t)
    (hkeeps : t.Keeps s o) (hfresh : t.DrawsFresh s o) (h : SecretStep s i o t.job t.pc u pc) :
    AccountInv { u with tasks := s.tasks.set i ⟨t.job, pc⟩ } := by
  obtain ⟨job, pc₀⟩ := t
  have hmem := List.mem_of_getElem? hi
  have hlt : i < s.tasks.length := (List.getElem?_eq_some_iff.1 hi).1
  cases h with
  | ends hr hbrings hlock =>
    refine hI.set_idle hi rfl (fun _ _ h => h) hbrings trivial rfl ?_
    by_contra h
    obtain ⟨id, hid⟩ := Option.ne_none_iff_exists'.1 h
    exact hr (SecretTask.touches_over hid).2
  | lost hr hlock hlost =>
    obtain ⟨id, hdraws, hrow⟩ := hlost hkeeps
    exact absurd (hI.drawn _ hmem id hdraws).1 hrow
  | exchanged =>
    refine hI.set hi rfl rfl (fun id kind h => .inl h)
      (.apartFromRows (fun _ _ h => by cases h) trivial (fun id h => ?_) rfl)
    cases h
    exact .inr hfresh
  | @tokenStored _ id _ _ hpc hdraws hlock hrow hissued =>
    refine hI.set hi rfl rfl (fun id' kind h => ?_)
      (.apartFromRows (fun _ _ h => by cases h) hissued (fun id' h => .inl (hdraws.symm.trans h))
        (congrArg (Option.map AccountRow.id) hrow))
    rcases SecretSys.stored_store h with h | ⟨rfl, rfl⟩
    · exact .inl h
    · exact .inr ⟨.inr ⟨_, List.mem_set hlt _, _, hpc, by simp⟩, hI.not_hasErased hmem rfl⟩
  | @refreshStored _ id _ _ row hid hkinds =>
    have hkinds := hkinds (hI.issued _ hmem)
    have hbrings : (SecretPc.stored row).brings = some (id, [.token, .refresh]) := by
      rw [SecretPc.brings, hid, hkinds]
    refine hI.set hi rfl rfl (fun id' kind h => ?_)
      (.apartFromRows (fun id' kinds h => ?_) trivial (fun id' h => .inl ?_) rfl)
    · rcases SecretSys.stored_store h with h | ⟨rfl, rfl⟩
      · exact .inl h
      · exact .inr ⟨.inr ⟨_, List.mem_set hlt _, _, hbrings, by simp⟩,
          hI.not_hasErased hmem rfl⟩
    · cases h
      exact ⟨_, hbrings, by simp⟩
    · rw [SecretPc.draws, hid] at h
      exact h
  | @keyStored _ _ _ row hlock hid hkinds =>
    have hbrings : (SecretPc.keyStored row).brings = some (o.id, [.apikey]) := by
      rw [SecretPc.brings, hid, hkinds]
    refine hI.set hi rfl rfl (fun id' kind h => ?_)
      (.apartFromRows (fun _ _ h => by cases h) trivial (fun id' h => .inr ?_) rfl)
    · rcases SecretSys.stored_store h with h | ⟨rfl, rfl⟩
      · exact .inl h
      · refine .inr ⟨.inr ⟨_, List.mem_set hlt _, _, hbrings, by simp⟩, fun v hv => ?_⟩
        by_contra h
        exact (hfresh.2 v hv).1 (SecretTask.touches_of_hasErased (by simpa using h))
    · rw [SecretPc.draws, hid] at h
      cases h
      exact hfresh
  | inserted hpc hid hkinds ht hlock => exact hI.inserted hi hpc hid hkinds ht
  | @rowRead id row hrow hkind hrefresh =>
    obtain rfl : row.id = id := KeyedTable.key_eq hrow
    refine hI.set hi rfl rfl (fun _ _ h => .inl h)
      (.finding hI (by rw [hrow]; rfl) rfl rfl trivial rfl (by simp) (fun x hx => ?_) (by simp))
    cases hx
    exact ⟨hkind, hrefresh, hrow⟩
  | refreshing hrow hrow' hpc hpc' =>
    exact hI.set hi rfl rfl (fun id kind h => .inl h) (.reading hI hmem hrow hrow' hpc'.2.1)
  | @restored _ _ _ _ row kind hrow hrow' hpc hpc' hkind hkeeps' =>
    refine hI.set hi rfl rfl (fun id' kind' h => ?_) (.reading hI hmem hrow hrow' hpc'.2.1)
    rcases SecretSys.stored_store h with h | ⟨rfl, rfl⟩
    · exact .inl h
    · obtain ⟨hsome, herased⟩ := hkeeps' hkeeps
      obtain ⟨current, hcurrent⟩ := Option.isSome_iff_exists.1 hsome
      obtain ⟨hoauth, hrefresh⟩ := hI.rows _ hmem row hrow current hcurrent
      refine .inr ⟨.inl ⟨current, hcurrent, ?_⟩, herased⟩
      rcases hkind with rfl | rfl <;> simp [AccountRow.secretKinds, hoauth, hrefresh]
  | updated hcurrent => exact hI.updated hi rfl hcurrent
  | @deleting id row hlock hrow =>
    refine hI.set hi rfl rfl (fun _ _ h => .inl h)
      (.finding hI (by rw [hrow]; rfl) rfl rfl trivial rfl (fun todo _ hpc kind h => ?_)
        (fun x hx => by cases hx) (by simp))
    cases hpc
    rcases hI.owned id kind h with ⟨x, hx, hkind⟩ | ⟨v, hv, kinds, hb, -⟩
    · obtain rfl : x = row := Option.some.inj (hx.symm.trans hrow)
      exact hkind
    · rw [(hI.drawn v hv id (SecretPc.draws_of_brings hb)).1] at hrow
      cases hrow
  | @erased id kind todo =>
    obtain ⟨hsome, htodo⟩ := hI.erasing id _ hmem
    refine hI.set hi rfl rfl (fun _ _ h => .inl (SecretSys.stored_erase h).1)
      (.finding hI hsome rfl rfl trivial rfl (fun todo' _ hpc kind' h => ?_)
        (fun x hx => by cases hx) (by simp))
    cases hpc
    obtain ⟨h, hne⟩ := SecretSys.stored_erase h
    rcases List.mem_cons.1 (htodo kind' h) with rfl | hmem
    · exact absurd ⟨rfl, rfl⟩ hne
    · exact hmem
  | deleted => exact hI.deleted hL hi
  | checked | refStored | bearerSet | serverFound =>
    exact hI.set_idle hi rfl (fun _ _ h => h) rfl trivial rfl rfl
  | bearerStored =>
    exact hI.set_idle hi rfl (fun _ _ => SecretSys.stored_storeBearer) rfl trivial rfl rfl
  | serverErased =>
    exact hI.set_idle hi rfl (fun _ _ => SecretSys.stored_eraseBearer) rfl trivial rfl rfl
  | serverDeleted haccounts _ =>
    exact hI.set_idle hi haccounts (fun _ _ h => h) rfl trivial rfl rfl

end AccountInv

end BuilderPro
