import BuilderPro.Lib.Runs
import BuilderPro.Orchd.Accounts
import BuilderPro.Orchd.CallSteps

/-!
# The steps of the tasks with secrets

What a step of a task stores, deletes and brings is one of a few things (`SecretStep`), and it has
the database's lock as long as its place in the code says so (`LockInv`).  A step keeps its secrets
if nothing fails half-way and no delete has passed it (`SecretSys.KeepsSecrets`).
-/

namespace BuilderPro

/-- Whether a task has the database's lock. -/
def SecretPc.holdsLock : SecretPc → Bool
  | .keyStored _ => true
  | .erasing _ => true
  | .refStored => true
  | .serverFound => true
  | .serverErased => true
  | _ => false

/-- The id a task has drawn for a row that is not in yet. -/
def SecretPc.draws : SecretPc → Option String
  | .exchanged id _ => some id
  | .tokenStored id _ _ => some id
  | .stored row => some row.id
  | .keyStored row => some row.id
  | _ => none

/-- The secrets a task has stored for such a row. -/
def SecretPc.brings : SecretPc → Option (String × List SecretKind)
  | .tokenStored id _ _ => some (id, [.token])
  | .stored row => some (row.id, row.secretKinds)
  | .keyStored row => some (row.id, row.secretKinds)
  | _ => none

theorem SecretPc.brings_of_row {pc : SecretPc} {row : AccountRow} (h : pc.row? = some row) :
    pc.brings = none := by
  unfold SecretPc.row? at h
  split at h <;> first | rfl | cases h

theorem SecretPc.draws_of_brings {pc : SecretPc} {id : String} {kinds : List SecretKind}
    (h : pc.brings = some (id, kinds)) : pc.draws = some id := by
  unfold SecretPc.brings at h
  split at h <;> cases h <;> rfl

theorem SecretPc.eq_over {pc : SecretPc} (h : pc.isOver = true) : ∃ r, pc = .over r := by
  unfold SecretPc.isOver at h
  split at h
  · exact ⟨_, rfl⟩
  · cases h

/-- Whether the refresh token a task is about to store is one it has been issued. -/
def SecretPc.BringsIssued : SecretPc → Prop
  | .tokenStored _ issued refresh => issued.refresh = some refresh
  | _ => True

namespace SecretTask

/-- The account a task has found there. -/
def touches : SecretTask → Option String
  | ⟨.deleteAccount id, .erasing _⟩ => some id
  | ⟨.deleteAccount id, .over .ack⟩ => some id
  | ⟨_, pc⟩ => pc.row?.map AccountRow.id

/-- Whether a delete has done with a secret. -/
def hasErased (id : String) (kind : SecretKind) : SecretTask → Bool
  | ⟨.deleteAccount id', .erasing todo⟩ => id' == id && !todo.contains kind
  | _ => false

/-- Whether a delete has done with a server's bearer. -/
def hasErasedBearer (id : String) : SecretTask → Bool
  | ⟨.deleteServer id', .serverErased⟩ => id' == id
  | _ => false

end SecretTask

namespace SecretSys

variable (s : SecretSys)

def Stored (id : String) (kind : SecretKind) : Prop :=
  s.keychain (accountRef id kind.name) ≠ none

/-- Whether a secret is one that a row stands for, or one whose row is about to be inserted. -/
def Owner (id : String) (kind : SecretKind) : Prop :=
  (∃ row, s.ext.accounts.lookup id = some row ∧ kind ∈ row.secretKinds)
    ∨ ∃ t ∈ s.tasks, ∃ kinds, t.pc.brings = some (id, kinds) ∧ kind ∈ kinds

/-- Whether an id is nobody's. -/
def Unused (id : String) : Prop :=
  s.ext.accounts.lookup id = none
    ∧ ∀ u ∈ s.tasks, u.touches ≠ some id ∧ u.pc.draws ≠ some id

/-- Whether an account is there for a secret of it to be stored, and to be found by its delete. -/
def Holds (id : String) (kind : SecretKind) : Prop :=
  (s.ext.accounts.lookup id).isSome ∧ ∀ u ∈ s.tasks, u.hasErased id kind = false

end SecretSys

/-- Whether a step of a task leaves no secret behind: a new account's row goes in once its first
secret is stored, and a secret of a row there was is stored only where a delete will find it. -/
def SecretTask.Keeps (s : SecretSys) (o : Outcome) : SecretTask → Prop
  | ⟨.completeOAuth _, .tokenStored _ _ _⟩ => o.ok = true
  | ⟨.completeOAuth _, .stored _⟩ => o.ok = true
  | ⟨.addApiKey _ _ _, .keyStored _⟩ => o.ok = true
  | ⟨.tokenFor _, .refreshed row _⟩ => o.ok = true → s.Holds row.id .token
  | ⟨.tokenFor _, .tokenRefreshed row _ _⟩ => o.ok = true → s.Holds row.id .refresh
  | ⟨.setServerBearer id _, .checked⟩ => o.ok = true →
    (s.ext.servers.lookup id).isSome ∧ ∀ u ∈ s.tasks, u.hasErasedBearer id = false
  | _ => True

/-- Whether an id that a step draws is nobody's. -/
def SecretTask.DrawsFresh (s : SecretSys) (o : Outcome) : SecretTask → Prop
  | ⟨.completeOAuth _, .start⟩ => s.Unused o.id
  | ⟨.addApiKey _ _ _, .start⟩ => s.Unused o.id
  | _ => True

instance (s : SecretSys) (id : String) (kind : SecretKind) : Decidable (s.Holds id kind) :=
  inferInstanceAs (Decidable (_ ∧ _))

instance (s : SecretSys) (id : String) : Decidable (s.Unused id) :=
  inferInstanceAs (Decidable (_ ∧ _))

instance (s : SecretSys) (o : Outcome) (t : SecretTask) : Decidable (t.Keeps s o) := by
  unfold SecretTask.Keeps
  split <;> infer_instance

instance (s : SecretSys) (o : Outcome) (t : SecretTask) : Decidable (t.DrawsFresh s o) := by
  unfold SecretTask.DrawsFresh
  split <;> infer_instance

namespace SecretSys

variable (s : SecretSys)

def KeepsSecrets : SecretAction → Prop
  | .advance i o => ∀ t ∈ s.tasks[i]?, t.Keeps s o
  | _ => True

def FreshIds : SecretAction → Prop
  | .advance i o => ∀ t ∈ s.tasks[i]?, t.DrawsFresh s o
  | .addServer _ id => ∀ u ∈ s.tasks, u ≠ ⟨.deleteServer id, .over .ack⟩
  | _ => True

end SecretSys

namespace SecretSys

variable (s : SecretSys) (a : SecretAction)

instance : Decidable (s.KeepsSecrets a) := by
  unfold KeepsSecrets
  split <;> infer_instance

instance : Decidable (s.FreshIds a) := by
  unfold FreshIds
  split <;> infer_instance

end SecretSys

/-! ### Steps -/

/-- What a step of a task does to the lock. -/
def LockStep (i : ℕ) (pc pc' : SecretPc) (lock lock' : Option ℕ) : Prop :=
  (lock' = lock ∧ (pc'.holdsLock = true → pc.holdsLock = true))
    ∨ (lock = none ∧ lock' = some i)
    ∨ (pc.holdsLock = true ∧ lock' = none ∧ pc'.holdsLock = false)

/-- What a step of a task can be. -/
inductive SecretStep (s : SecretSys) (i : ℕ) (o : Outcome) :
    SecretJob → SecretPc → SecretSys → SecretPc → Prop
  /-- A job ends that leaves nothing. -/
  | ends {job : SecretJob} {pc : SecretPc} {r : SecretReply} {lock : Option ℕ} (hr : r ≠ .ack)
      (hbrings : pc.brings = none) (hlock : LockStep i pc (.over r) s.lock lock) :
      SecretStep s i o job pc { s with lock := lock } (.over r)
  /-- A new account's row does not go in, and its secrets stay. -/
  | lost {job : SecretJob} {pc : SecretPc} {r : SecretReply} {lock : Option ℕ} (hr : r ≠ .ack)
      (hlock : LockStep i pc (.over r) s.lock lock)
      (hlost : SecretTask.Keeps s o ⟨job, pc⟩ →
        ∃ id, pc.draws = some id ∧ s.ext.accounts.lookup id ≠ none) :
      SecretStep s i o job pc { s with lock := lock } (.over r)
  | exchanged {p : PendingOAuth} {issued : Issued} :
      SecretStep s i o (.completeOAuth p) .start s (.exchanged o.id issued)
  | tokenStored {p : PendingOAuth} {id : String} {issued : Issued} {pc : SecretPc}
      (hpc : pc.brings = some (id, [.token])) (hdraws : pc.draws = some id)
      (hlock : pc.holdsLock = false) (hrow : pc.row? = none) (hissued : pc.BringsIssued) :
      SecretStep s i o (.completeOAuth p) (.exchanged id issued)
        (s.store (accountRef id SecretKind.token.name) issued.access) pc
  | refreshStored {p : PendingOAuth} {id : String} {issued : Issued} {refresh : String}
      {row : AccountRow} (hid : row.id = id)
      (hkinds : issued.refresh = some refresh → row.secretKinds = [.token, .refresh]) :
      SecretStep s i o (.completeOAuth p) (.tokenStored id issued refresh)
        (s.store (accountRef id SecretKind.refresh.name) refresh) (.stored row)
  | keyStored {provider label key : String} {row : AccountRow} (hlock : s.lock = none)
      (hid : row.id = o.id) (hkinds : row.secretKinds = [.apikey]) :
      SecretStep s i o (.addApiKey provider label key) .start
        { s.store (accountRef o.id SecretKind.apikey.name) key with lock := some i }
        (.keyStored row)
  | inserted {job : SecretJob} {pc : SecretPc} {row row' : AccountRow}
      {t : KeyedTable AccountRow.id} {lock : Option ℕ}
      (hpc : pc = .stored row ∨ pc = .keyStored row) (hid : row'.id = row.id)
      (hkinds : row'.secretKinds = row.secretKinds) (ht : s.ext.accounts.insert row' = some t)
      (hlock : LockStep i pc (.over (.account row')) s.lock lock) :
      SecretStep s i o job pc { s with ext := { s.ext with accounts := t }, lock := lock }
        (.over (.account row'))
  | rowRead {id : String} {row : AccountRow} (hrow : s.ext.accounts.lookup id = some row)
      (hkind : row.authKind = .oauth) (hrefresh : row.refreshRef.isSome) :
      SecretStep s i o (.tokenFor id) .start s (.rowRead row)
  | refreshing {id : String} {pc pc' : SecretPc} {row : AccountRow} (hrow : pc.row? = some row)
      (hrow' : pc'.row? = some row) (hpc : pc.holdsLock = false ∧ pc.draws = none)
      (hpc' : pc'.holdsLock = false ∧ pc'.draws = none ∧ pc'.brings = none) :
      SecretStep s i o (.tokenFor id) pc s pc'
  | restored {id secret : String} {pc pc' : SecretPc} {row : AccountRow} {kind : SecretKind}
      (hrow : pc.row? = some row) (hrow' : pc'.row? = some row)
      (hpc : pc.holdsLock = false ∧ pc.draws = none)
      (hpc' : pc'.holdsLock = false ∧ pc'.draws = none ∧ pc'.brings = none)
      (hkind : kind = .token ∨ kind = .refresh)
      (hkeeps : SecretTask.Keeps s o ⟨.tokenFor id, pc⟩ → s.Holds row.id kind) :
      SecretStep s i o (.tokenFor id) pc (s.store (accountRef row.id kind.name) secret) pc'
  | updated {id : String} {row current : AccountRow} {issued : Issued}
      {expiresAt : Option ℤ} {b : Bool}
      (hcurrent : s.ext.accounts.lookup row.id = some current) :
      SecretStep s i o (.tokenFor id) (.rewritten row issued expiresAt)
        { s with ext := { s.ext with
          accounts := s.ext.accounts.replace (current.updateTokens expiresAt b s.clock) } }
        (.over (.token issued.access))
  | deleting {id : String} {row : AccountRow} (hlock : s.lock = none)
      (hrow : s.ext.accounts.lookup id = some row) :
      SecretStep s i o (.deleteAccount id) .start { s with lock := some i }
        (.erasing row.secretKinds)
  | erased {id : String} {kind : SecretKind} {todo : List SecretKind} :
      SecretStep s i o (.deleteAccount id) (.erasing (kind :: todo))
        (s.erase (accountRef id kind.name)) (.erasing todo)
  | deleted {id : String} : SecretStep s i o (.deleteAccount id) (.erasing [])
      { s with ext := s.ext.eraseAccount id, lock := none } (.over .ack)
  | checked {id token : String} : SecretStep s i o (.setServerBearer id token) .start s .checked
  | bearerStored {id token : String} (hok : o.ok = true) :
      SecretStep s i o (.setServerBearer id token) .checked (s.store (mcpBearerRef id) token)
        .bearerStored
  | refStored {id token : String} {row : McpServerRow} (hlock : s.lock = none) :
      SecretStep s i o (.setServerBearer id token) .bearerStored
        { s with
          ext := { s.ext with servers := s.ext.servers.replace row }, lock := some i } .refStored
  | bearerSet {id token : String} {row row' : McpServerRow} {c : KeyedTable ConsentRow.slot} :
      SecretStep s i o (.setServerBearer id token) .refStored
        { s with
          ext := { s.ext with servers := s.ext.servers.replace row, consents := c }, lock := none }
        (.over (.server row'))
  | serverFound {id : String} (hlock : s.lock = none) :
      SecretStep s i o (.deleteServer id) .start { s with lock := some i } .serverFound
  | serverErased {id : String} : SecretStep s i o (.deleteServer id) .serverFound
      (s.erase (mcpBearerRef id)) .serverErased
  | serverDeleted {id : String} {e : ExtStore} (haccounts : e.accounts = s.ext.accounts)
      (hservers : e.servers = s.ext.servers.erase id) :
      SecretStep s i o (.deleteServer id) .serverErased { s with ext := e, lock := none }
        (.over .ack)

namespace SecretSys

variable {s u : SecretSys} {i : ℕ} {o : Outcome} {pc pc' : SecretPc}

/-- A job that has no lock ends as it is. -/
theorem lockStep_over {r : SecretReply} (lock : Option ℕ) : LockStep i pc (.over r) lock lock :=
  .inl ⟨rfl, fun h => by cases h⟩

theorem lockStep_giveUp {r : SecretReply} (lock : Option ℕ) (h : pc.holdsLock = true) :
    LockStep i pc (.over r) lock none :=
  .inr (.inr ⟨h, rfl, rfl⟩)

/-- A row goes in whose id is not taken, when the database serves. -/
theorem insertAccount_cases (s : SecretSys) (o : Outcome) (row : AccountRow) :
    (∃ error, s.insertAccount o row = (s, .over (.failed error))
      ∧ (o.ok = true → s.ext.accounts.lookup row.id ≠ none))
    ∨ ∃ now t, s.ext.accounts.insert { row with createdAt := now, updatedAt := now } = some t
      ∧ s.insertAccount o row = ({ s with ext := { s.ext with accounts := t } },
        .over (.account { row with createdAt := now, updatedAt := now })) := by
  unfold insertAccount ExtStore.insertAccount
  rcases ht : s.ext.accounts.insert { row with createdAt := s.clock, updatedAt := s.clock } with
    _ | t
  · refine .inl ?_
    have htaken : s.ext.accounts.lookup row.id ≠ none := by
      intro hnone
      obtain ⟨t, ht'⟩ := KeyedTable.exists_insert (t := s.ext.accounts)
        (x := { row with createdAt := s.clock, updatedAt := s.clock }) hnone
      rw [ht] at ht'
      cases ht'
    dsimp only
    split_ifs with hok
    · exact ⟨_, by rw [ht], fun _ => htaken⟩
    · exact ⟨_, rfl, fun _ => htaken⟩
  · dsimp only
    split_ifs with hok
    · exact .inr ⟨s.clock, t, ht, by rw [ht]⟩
    · exact .inl ⟨_, rfl, fun h => absurd h hok⟩

theorem reply_over (s : SecretSys) (o : Outcome) (ref : SecretRef) :
    ∃ r, s.reply o ref = .over r ∧ r ≠ .ack := by
  unfold reply
  split
  · split_ifs
    · exact ⟨_, rfl, by simp⟩
    · exact ⟨_, rfl, by simp⟩
  · exact ⟨_, rfl, by simp⟩

theorem insertAccount_lock (s : SecretSys) (o : Outcome) (row : AccountRow) :
    (s.insertAccount o row).1.lock = s.lock := by
  unfold insertAccount
  dsimp only
  split_ifs
  · split <;> rfl
  · rfl

/-- How a new account's row goes in, or does not. -/
theorem insertAccount_step {job : SecretJob} {row : AccountRow} {lock : Option ℕ}
    (hpc : pc = .stored row ∨ pc = .keyStored row)
    (hkeeps : SecretTask.Keeps s o ⟨job, pc⟩ → o.ok = true)
    (hlock : ∀ r, LockStep i pc (.over r) s.lock lock) :
    SecretStep s i o job pc { (s.insertAccount o row).1 with lock := lock }
      (s.insertAccount o row).2 := by
  have hdraws : pc.draws = some row.id := by
    rcases hpc with rfl | rfl <;> rfl
  rcases insertAccount_cases s o row with ⟨error, heq, htaken⟩ | ⟨now, t, ht, heq⟩
  · rw [heq]
    exact .lost (by simp) (hlock _) fun hk => ⟨row.id, hdraws, htaken (hkeeps hk)⟩
  · rw [heq]
    exact .inserted hpc rfl rfl ht (hlock _)

theorem completeOAuth_step {p : PendingOAuth} (h : s.completeOAuth o p pc = some (u, pc')) :
    SecretStep s i o (.completeOAuth p) pc u pc' := by
  unfold completeOAuth at h
  split at h
  · split at h <;> cases h
    · exact .exchanged
    · exact .ends (by simp) rfl (lockStep_over _)
  · split_ifs at h <;> cases h
    · split
      · exact .tokenStored rfl rfl rfl rfl ‹_›
      · exact .tokenStored (by simp [SecretPc.brings, PendingOAuth.account, AccountRow.secretKinds,
          *]) rfl rfl rfl trivial
    · exact .ends (by simp) rfl (lockStep_over _)
  · split_ifs at h with hok <;> cases h
    · exact .refreshStored rfl fun hissued => by
        simp [PendingOAuth.account, AccountRow.secretKinds, hissued]
    · exact .lost (by simp) (lockStep_over _) fun hk => absurd hk hok
  · split_ifs at h
    rename_i row _
    simp only [Option.some.injEq, Prod.ext_iff] at h
    obtain ⟨rfl, rfl⟩ := h
    have hstep : SecretStep s i o (.completeOAuth p) (.stored row)
        { (s.insertAccount o row).1 with lock := s.lock } (s.insertAccount o row).2 :=
      insertAccount_step (.inl rfl) (fun hk => hk) fun r => lockStep_over _
    rwa [← insertAccount_lock s o row] at hstep
  · cases h

theorem addApiKey_step {provider label key : String}
    (h : s.addApiKey i o provider label key pc = some (u, pc')) :
    SecretStep s i o (.addApiKey provider label key) pc u pc' := by
  unfold addApiKey at h
  split at h
  · split_ifs at h with hlock hok <;> cases h
    · exact .keyStored (by simpa using hlock) rfl rfl
    · exact .ends (by simp) rfl (lockStep_over _)
  · simp only [Option.some.injEq, Prod.ext_iff] at h
    obtain ⟨rfl, rfl⟩ := h
    exact insertAccount_step (.inr rfl) id fun r => lockStep_giveUp _ rfl
  · cases h

theorem tokenFor_step {id : String} (h : s.tokenFor o id pc = some (u, pc')) :
    SecretStep s i o (.tokenFor id) pc u pc' := by
  have hreply : ∀ ref, SecretStep s i o (.tokenFor id) .start s (s.reply o ref) := by
    intro ref
    obtain ⟨r, hr, hack⟩ := reply_over s o ref
    rw [hr]
    exact .ends hack rfl (lockStep_over _)
  unfold tokenFor at h
  split at h
  · split_ifs at h
    split at h
    · cases h
      exact .ends (by simp) rfl (lockStep_over _)
    · rename_i row hrow
      split at h
      · cases h
        exact hreply _
      · rename_i hkind
        split_ifs at h with hexpired <;> cases h
        · simp only [Bool.and_eq_true] at hexpired
          exact .rowRead hrow hkind hexpired.2
        · exact hreply _
  · split at h
    · split_ifs at h <;> cases h
      · exact .refreshing rfl rfl ⟨rfl, rfl⟩ ⟨rfl, rfl, rfl⟩
      · exact .ends (by simp) rfl (lockStep_over _)
    · cases h
      exact .ends (by simp) rfl (lockStep_over _)
  · split at h <;> cases h
    · exact .refreshing rfl rfl ⟨rfl, rfl⟩ ⟨rfl, rfl, rfl⟩
    · exact .ends (by simp) rfl (lockStep_over _)
  · split_ifs at h with hok <;> cases h
    · split
      · exact .restored rfl rfl ⟨rfl, rfl⟩ ⟨rfl, rfl, rfl⟩ (.inl rfl) fun hk => hk hok
      · exact .restored rfl rfl ⟨rfl, rfl⟩ ⟨rfl, rfl, rfl⟩ (.inl rfl) fun hk => hk hok
    · exact .ends (by simp) rfl (lockStep_over _)
  · split_ifs at h with hok <;> cases h
    · exact .restored rfl rfl ⟨rfl, rfl⟩ ⟨rfl, rfl, rfl⟩ (.inr rfl) fun hk => hk hok
    · exact .ends (by simp) rfl (lockStep_over _)
  · split_ifs at h
    split at h <;> cases h
    · exact .updated ‹_›
    · exact .ends (by simp) rfl (lockStep_over _)
    · exact .ends (by simp) rfl (lockStep_over _)
  · cases h

theorem deleteAccount_step {id : String} (h : s.deleteAccount i o id pc = some (u, pc')) :
    SecretStep s i o (.deleteAccount id) pc u pc' := by
  unfold deleteAccount at h
  split at h
  · split_ifs at h with hlock
    split at h <;> cases h
    · exact .ends (by simp) rfl (lockStep_over _)
    · exact .deleting (by simpa using hlock) ‹_›
  · split_ifs at h <;> cases h
    · exact .erased
    · exact .ends (by simp) rfl (lockStep_giveUp _ rfl)
  · split_ifs at h <;> cases h
    · exact .deleted
    · exact .ends (by simp) rfl (lockStep_giveUp _ rfl)
  · cases h

theorem setServerBearer_step {id token : String}
    (h : s.setServerBearer i o id token pc = some (u, pc')) :
    SecretStep s i o (.setServerBearer id token) pc u pc' := by
  unfold setServerBearer at h
  split at h
  · split_ifs at h
    split at h <;> cases h
    · exact .ends (by simp) rfl (lockStep_over _)
    · exact .checked
  · split_ifs at h with hok <;> cases h
    · exact .bearerStored hok
    · exact .ends (by simp) rfl (lockStep_over _)
  · split_ifs at h with hlock
    split at h <;> cases h
    · rename_i e _ _ he
      obtain ⟨row, rfl⟩ := ExtStore.setMcpServerSecretRef_eq_ok he
      exact .refStored (by simpa using hlock)
    · exact .ends (by simp) rfl (lockStep_over _)
    · exact .ends (by simp) rfl (lockStep_over _)
  · dsimp only at h
    split at h <;> cases h
    · rename_i he
      obtain ⟨row, c, rfl⟩ := ExtStore.updateMcpServer_eq_ok he
      exact .bearerSet
    · exact .ends (by simp) rfl (lockStep_giveUp _ rfl)
    · exact .ends (by simp) rfl (lockStep_giveUp _ rfl)
  · cases h

theorem deleteServer_step {id : String} (h : s.deleteServer i o id pc = some (u, pc')) :
    SecretStep s i o (.deleteServer id) pc u pc' := by
  unfold deleteServer at h
  split at h
  · split_ifs at h with hlock
    split at h <;> cases h
    · exact .ends (by simp) rfl (lockStep_over _)
    · exact .serverFound (by simpa using hlock)
  · split_ifs at h <;> cases h
    · exact .serverErased
    · exact .ends (by simp) rfl (lockStep_giveUp _ rfl)
  · split at h <;> cases h
    · rename_i he
      simp only [ExtStore.deleteMcpServer, Results.bind_eq_ok, Results.pure_eq_ok] at he
      obtain ⟨-, -, rfl⟩ := he
      exact .serverDeleted rfl rfl
    · exact .ends (by simp) rfl (lockStep_giveUp _ rfl)
    · exact .ends (by simp) rfl (lockStep_giveUp _ rfl)
  · cases h

theorem next_step {job : SecretJob} (h : s.next i o job pc = some (u, pc')) :
    SecretStep s i o job pc u pc' := by
  cases job with
  | completeOAuth p => exact completeOAuth_step h
  | addApiKey provider label key => exact addApiKey_step h
  | tokenFor id => exact tokenFor_step h
  | deleteAccount id => exact deleteAccount_step h
  | setServerBearer id token => exact setServerBearer_step h
  | deleteServer id => exact deleteServer_step h

/-! ### The lock -/

/-- Whether the lock is a task's whenever the task needs it. -/
def LockInv (s : SecretSys) : Prop :=
  ∀ i t, s.tasks[i]? = some t → t.pc.holdsLock = true → s.lock = some i

theorem LockInv.set {s' : SecretSys} {t : SecretTask} (h : LockInv s)
    (hi : s.tasks[i]? = some t) (htasks : s'.tasks = s.tasks.set i ⟨t.job, pc⟩)
    (hlock : LockStep i t.pc pc s.lock s'.lock) : LockInv s' := by
  intro j u hu hholds
  rw [htasks, List.getElem?_set] at hu
  split_ifs at hu with hij
  · cases hu
    subst hij
    rcases hlock with ⟨hlock, hpc⟩ | ⟨-, hlock⟩ | ⟨-, -, hpc⟩
    · rw [hlock]
      exact h i t hi (hpc hholds)
    · exact hlock
    · rw [hpc] at hholds
      cases hholds
  · have hj := h j u hu hholds
    rcases hlock with ⟨hlock, -⟩ | ⟨hnone, -⟩ | ⟨hpc, -, -⟩
    · rw [hlock, hj]
    · rw [hnone] at hj
      cases hj
    · rw [h i t hi hpc] at hj
      exact absurd (Option.some.inj hj) hij

end SecretSys

/-- A step without the lock. -/
theorem LockStep.same {i : ℕ} {pc pc' : SecretPc} {lock : Option ℕ} (h : pc'.holdsLock = false) :
    LockStep i pc pc' lock lock :=
  .inl ⟨rfl, fun hpc => by rw [h] at hpc; cases hpc⟩

theorem SecretStep.lockStep {s u : SecretSys} {i : ℕ} {o : Outcome} {job : SecretJob}
    {pc pc' : SecretPc} (h : SecretStep s i o job pc u pc') :
    LockStep i pc pc' s.lock u.lock := by
  cases h with
  | ends _ _ hlock => exact hlock
  | lost _ hlock _ => exact hlock
  | inserted _ _ _ _ hlock => exact hlock
  | exchanged | refreshStored | rowRead | updated | checked | bearerStored => exact .same rfl
  | tokenStored _ _ hlock => exact .same hlock
  | refreshing _ _ _ hpc' => exact .same hpc'.1
  | restored _ _ _ hpc' => exact .same hpc'.1
  | keyStored hlock | deleting hlock | refStored hlock | serverFound hlock =>
    exact .inr (.inl ⟨hlock, rfl⟩)
  | erased | serverErased => exact .inl ⟨rfl, fun _ => rfl⟩
  | deleted | bearerSet | serverDeleted => exact .inr (.inr ⟨rfl, rfl, rfl⟩)

end BuilderPro
