import BuilderPro.Orchd.Calls

/-!
# Accounts and their secrets

`connectors/accounts.rs` and the `McpDeleteServer` and `McpSetServerBearer` arms: a secret goes into
the keychain in one step and the row that names it into the database in another.  The database's
lock is held over some of these steps and not over others; each may fail.
-/

namespace BuilderPro

/-- The kinds of secrets an account has. -/
inductive SecretKind
  | token
  | refresh
  | apikey
  deriving DecidableEq, Repr

def SecretKind.name : SecretKind → String
  | .token => "token"
  | .refresh => "refresh"
  | .apikey => "apikey"

/-- The last of what a secret's place is made of tells the kinds apart. -/
theorem accountRef_inj {id id' : String} {k k' : SecretKind} :
    accountRef id k.name = accountRef id' k'.name ↔ id = id' ∧ k = k' := by
  refine ⟨fun h => ?_, fun ⟨hid, hk⟩ => by rw [hid, hk]⟩
  have hlist : id.toList ++ (':' :: k.name.toList) = id'.toList ++ (':' :: k'.name.toList) := by
    simpa [accountRef] using congrArg (fun r => r.account.toList) h
  obtain rfl : k = k' := by
    have hlast := congrArg List.getLast? hlist
    rcases k <;> rcases k' <;> first | rfl | simp [SecretKind.name] at hlast
  exact ⟨String.toList_inj.1 (List.append_cancel_right hlist), rfl⟩

theorem mcpBearerRef_inj {id id' : String} : mcpBearerRef id = mcpBearerRef id' ↔ id = id' := by
  simp [mcpBearerRef]

theorem accountRef_ne_mcpBearerRef (id kind id' : String) :
    accountRef id kind ≠ mcpBearerRef id' := by
  intro h
  simpa [accountRef, mcpBearerRef] using congrArg SecretRef.service h

/-- What an identity provider answers to an exchange. -/
structure Issued where
  access : String
  refresh : Option String
  expiresInMs : Option ℤ
  deriving DecidableEq, Repr

/-- `PendingOAuth`, of which the exchange is left. -/
structure PendingOAuth where
  provider : String
  label : String
  scopes : List String
  deriving DecidableEq, Repr

inductive ConnectorError
  | tokenExchange
  | secret
  | persist (error : OrchdPersistError)
  deriving DecidableEq, Repr

inductive SecretReply
  | account (row : AccountRow)
  | token (bearer : String)
  | server (row : McpServerRow)
  | ack
  | failed (error : ConnectorError)
  deriving DecidableEq

inductive SecretJob
  | completeOAuth (p : PendingOAuth)
  | addApiKey (provider label key : String)
  | tokenFor (accountId : String)
  | deleteAccount (id : String)
  | setServerBearer (id token : String)
  | deleteServer (id : String)
  deriving DecidableEq

/-- Where a job is. -/
inductive SecretPc
  | start
  | exchanged (id : String) (issued : Issued)
  | tokenStored (id : String) (issued : Issued) (refresh : String)
  /-- The secrets of a new account are stored; its row is not in yet. -/
  | stored (row : AccountRow)
  /-- The same, with the lock held. -/
  | keyStored (row : AccountRow)
  | rowRead (row : AccountRow)
  | secretRead (row : AccountRow) (refresh : String)
  | refreshed (row : AccountRow) (issued : Issued)
  | tokenRefreshed (row : AccountRow) (issued : Issued) (refresh : String)
  | rewritten (row : AccountRow) (issued : Issued) (expiresAt : Option ℤ)
  /-- `delete_account` has these of the account's secrets left to delete. -/
  | erasing (todo : List SecretKind)
  | checked
  | bearerStored
  | refStored
  | serverFound
  | serverErased
  | over (reply : SecretReply)
  deriving DecidableEq

def SecretPc.isOver : SecretPc → Bool
  | .over _ => true
  | _ => false

/-- The row a refresh has read. -/
def SecretPc.row? : SecretPc → Option AccountRow
  | .rowRead row => some row
  | .secretRead row _ => some row
  | .refreshed row _ => some row
  | .tokenRefreshed row _ _ => some row
  | .rewritten row _ _ => some row
  | _ => none

structure SecretTask where
  job : SecretJob
  pc : SecretPc
  deriving DecidableEq

/-- What a step meets with: whether the keychain or the database serves it, the id it draws and the
provider's answer. -/
structure Outcome where
  ok : Bool
  id : String
  answer : Option Issued

structure SecretSys where
  ext : ExtStore
  keychain : SecretRef → Option String
  clock : ℤ
  /-- Which task holds the database's lock. -/
  lock : Option ℕ
  tasks : List SecretTask

/-- `expires_at_from`. -/
def expiresAtFrom (now ttlMs : ℤ) : ℤ := min (now + ttlMs) (2 ^ 63 - 1)

namespace AccountRow

/-- The secrets a row stands for. -/
def secretKinds (row : AccountRow) : List SecretKind :=
  match row.authKind with
  | .oauth => .token :: if row.refreshRef.isSome then [.refresh] else []
  | .apikey => [.apikey]

/-- `update_account_tokens`: what is not given of the refresh token's place stays. -/
def updateTokens (row : AccountRow) (expiresAt : Option ℤ) (hasRefresh : Bool) (now : ℤ) :
    AccountRow :=
  { row with
    expiresAt := expiresAt
    refreshRef := if hasRefresh then some (accountRef row.id SecretKind.refresh.name).account
      else row.refreshRef
    updatedAt := now }

@[simp] theorem updateTokens_id (row : AccountRow) (expiresAt : Option ℤ) (hasRefresh : Bool)
    (now : ℤ) : (row.updateTokens expiresAt hasRefresh now).id = row.id := rfl

end AccountRow

/-- The row of an account whose tokens have been issued. -/
def PendingOAuth.account (p : PendingOAuth) (id : String) (issued : Issued) (now : ℤ) :
    AccountRow :=
  ⟨id, p.provider, p.label, .oauth, (accountRef id SecretKind.token.name).account, p.scopes,
    issued.expiresInMs.map (expiresAtFrom now),
    issued.refresh.map fun _ => (accountRef id SecretKind.refresh.name).account, now, now⟩

namespace SecretSys

variable (s : SecretSys) (i : ℕ) (o : Outcome)

def store (ref : SecretRef) (secret : String) : SecretSys :=
  { s with keychain := fun r => if r = ref then some secret else s.keychain r }

/-- A secret that is not there has been deleted, too. -/
def erase (ref : SecretRef) : SecretSys :=
  { s with keychain := fun r => if r = ref then none else s.keychain r }

/-- `insert_account`, by a task that has the lock. -/
def insertAccount (row : AccountRow) : SecretSys × SecretPc :=
  let row := { row with createdAt := s.clock, updatedAt := s.clock }
  if o.ok then
    match s.ext.insertAccount row with
    | .ok e => ({ s with ext := e }, .over (.account row))
    | .error error => (s, .over (.failed (.persist error)))
  else (s, .over (.failed (.persist (.sql "database"))))

/-- `complete_oauth`, the pending entry taken. -/
def completeOAuth (p : PendingOAuth) : SecretPc → Option (SecretSys × SecretPc)
  | .start =>
    match o.answer with
    | some issued => some (s, .exchanged o.id issued)
    | none => some (s, .over (.failed .tokenExchange))
  | .exchanged id issued =>
    if o.ok then
      some (s.store (accountRef id SecretKind.token.name) issued.access,
        match issued.refresh with
        | some refresh => .tokenStored id issued refresh
        | none => .stored (p.account id issued s.clock))
    else some (s, .over (.failed .secret))
  | .tokenStored id issued refresh =>
    if o.ok then
      some (s.store (accountRef id SecretKind.refresh.name) refresh,
        .stored (p.account id issued s.clock))
    else some (s, .over (.failed .secret))
  | .stored row => if s.lock.isSome then none else some (s.insertAccount o row)
  | _ => none

/-- `add_apikey`, under the lock. -/
def addApiKey (provider label key : String) : SecretPc → Option (SecretSys × SecretPc)
  | .start =>
    if s.lock.isSome then none
    else if o.ok then
      some ({ s.store (accountRef o.id SecretKind.apikey.name) key with lock := some i },
        .keyStored ⟨o.id, provider, label, .apikey,
          (accountRef o.id SecretKind.apikey.name).account, [], none, none, s.clock, s.clock⟩)
    else some (s, .over (.failed .secret))
  | .keyStored row =>
    let (t, pc) := s.insertAccount o row
    some ({ t with lock := none }, pc)
  | _ => none

/-- A secret that is handed out. -/
def reply (ref : SecretRef) : SecretPc :=
  match s.keychain ref with
  | some bearer => if o.ok then .over (.token bearer) else .over (.failed .secret)
  | none => .over (.failed .secret)

/-- `token_for`, with `refresh_oauth_token`. -/
def tokenFor (accountId : String) : SecretPc → Option (SecretSys × SecretPc)
  | .start =>
    if s.lock.isSome then none
    else match s.ext.accounts.lookup accountId with
      | none => some (s, .over (.failed (.persist .notFound)))
      | some row =>
        match row.authKind with
        | .apikey => some (s, s.reply o (accountRef row.id SecretKind.apikey.name))
        | .oauth =>
          if row.expiresAt.any (· ≤ s.clock) && row.refreshRef.isSome then some (s, .rowRead row)
          else some (s, s.reply o (accountRef row.id SecretKind.token.name))
  | .rowRead row =>
    match s.keychain (accountRef row.id SecretKind.refresh.name) with
    | some refresh =>
      if o.ok then some (s, .secretRead row refresh) else some (s, .over (.failed .secret))
    | none => some (s, .over (.failed .secret))
  | .secretRead row _ =>
    match o.answer with
    | some issued => some (s, .refreshed row issued)
    | none => some (s, .over (.failed .tokenExchange))
  | .refreshed row issued =>
    if o.ok then
      some (s.store (accountRef row.id SecretKind.token.name) issued.access,
        match issued.refresh with
        | some refresh => .tokenRefreshed row issued refresh
        | none => .rewritten row issued (issued.expiresInMs.map (expiresAtFrom s.clock)))
    else some (s, .over (.failed .secret))
  | .tokenRefreshed row issued refresh =>
    if o.ok then
      some (s.store (accountRef row.id SecretKind.refresh.name) refresh,
        .rewritten row issued (issued.expiresInMs.map (expiresAtFrom s.clock)))
    else some (s, .over (.failed .secret))
  | .rewritten row issued expiresAt =>
    if s.lock.isSome then none
    else match o.ok, s.ext.accounts.lookup row.id with
      | true, some current =>
        let updated := current.updateTokens expiresAt
          (row.refreshRef.isSome || issued.refresh.isSome) s.clock
        some ({ s with ext := { s.ext with accounts := s.ext.accounts.replace updated } },
          .over (.token issued.access))
      | true, none => some (s, .over (.failed (.persist .notFound)))
      | false, _ => some (s, .over (.failed (.persist (.sql "database"))))
  | _ => none

/-- `delete_account`, under the lock: the keychain goes before the row. -/
def deleteAccount (id : String) : SecretPc → Option (SecretSys × SecretPc)
  | .start =>
    if s.lock.isSome then none
    else match s.ext.accounts.lookup id with
      | none => some (s, .over (.failed (.persist .notFound)))
      | some row => some ({ s with lock := some i }, .erasing row.secretKinds)
  | .erasing (kind :: todo) =>
    if o.ok then some (s.erase (accountRef id kind.name), .erasing todo)
    else some ({ s with lock := none }, .over (.failed .secret))
  | .erasing [] =>
    if o.ok then some ({ s with ext := s.ext.eraseAccount id, lock := none }, .over .ack)
    else some ({ s with lock := none }, .over (.failed (.persist (.sql "database"))))
  | _ => none

/-- `McpSetServerBearer`. -/
def setServerBearer (id token : String) : SecretPc → Option (SecretSys × SecretPc)
  | .start =>
    if s.lock.isSome then none
    else match s.ext.getMcpServer id with
      | .error error => some (s, .over (.failed (.persist error)))
      | .ok _ => some (s, .checked)
  | .checked =>
    if o.ok then some (s.store (mcpBearerRef id) token, .bearerStored)
    else some (s, .over (.failed .secret))
  | .bearerStored =>
    if s.lock.isSome then none
    else match o.ok, s.ext.setMcpServerSecretRef id id s.clock with
      | true, .ok (e, _) => some ({ s with ext := e, lock := some i }, .refStored)
      | true, .error error => some (s, .over (.failed (.persist error)))
      | false, _ => some (s, .over (.failed (.persist (.sql "database"))))
  | .refStored =>
    let patch : McpServerPatch :=
      ⟨none, none, none, none, none, some .bearer, none, none, none, none⟩
    match o.ok, s.ext.updateMcpServer id patch s.clock with
    | true, .ok (e, row) => some ({ s with ext := e, lock := none }, .over (.server row))
    | true, .error error => some ({ s with lock := none }, .over (.failed (.persist error)))
    | false, _ => some ({ s with lock := none }, .over (.failed (.persist (.sql "database"))))
  | _ => none

/-- `McpDeleteServer`, under the lock. -/
def deleteServer (id : String) : SecretPc → Option (SecretSys × SecretPc)
  | .start =>
    if s.lock.isSome then none
    else match s.ext.getMcpServer id with
      | .error error => some (s, .over (.failed (.persist error)))
      | .ok _ => some ({ s with lock := some i }, .serverFound)
  | .serverFound =>
    if o.ok then some (s.erase (mcpBearerRef id), .serverErased)
    else some ({ s with lock := none }, .over (.failed .secret))
  | .serverErased =>
    match o.ok, s.ext.deleteMcpServer id with
    | true, .ok e => some ({ s with ext := e, lock := none }, .over .ack)
    | true, .error error => some ({ s with lock := none }, .over (.failed (.persist error)))
    | false, _ => some ({ s with lock := none }, .over (.failed (.persist (.sql "database"))))
  | _ => none

/-- What a job does next. -/
def next : SecretJob → SecretPc → Option (SecretSys × SecretPc)
  | .completeOAuth p => s.completeOAuth o p
  | .addApiKey provider label key => s.addApiKey i o provider label key
  | .tokenFor accountId => s.tokenFor o accountId
  | .deleteAccount id => s.deleteAccount i o id
  | .setServerBearer id token => s.setServerBearer i o id token
  | .deleteServer id => s.deleteServer i o id

end SecretSys

inductive SecretAction
  | domain (d : Store)
  | tick (ms : ℕ)
  | addServer (new : NewMcpServer) (id : String)
  | request (job : SecretJob)
  | advance (i : ℕ) (o : Outcome)

namespace SecretSys

def step (s : SecretSys) : SecretAction → Option SecretSys
  | .domain d =>
    if s.lock.isSome then none else some { s with ext := { s.ext with domain := d } }
  | .tick ms => some { s with clock := s.clock + ms }
  | .addServer new id =>
    if s.lock.isSome then none
    else match s.ext.addMcpServer new id s.clock with
      | .ok (e, _) => some { s with ext := e }
      | .error _ => some s
  | .request job => some { s with tasks := s.tasks ++ [⟨job, .start⟩] }
  | .advance i o => do
    let t ← s.tasks[i]?
    let (u, pc) ← s.next i o t.job t.pc
    return { u with tasks := s.tasks.set i ⟨t.job, pc⟩ }

/-- Whether no request is on its way. -/
def Settled (s : SecretSys) : Prop := ∀ t ∈ s.tasks, t.pc.isOver = true

instance (s : SecretSys) : Decidable s.Settled :=
  inferInstanceAs (Decidable (∀ t ∈ s.tasks, t.pc.isOver = true))

/-- A daemon with an empty database and an empty keychain. -/
def fresh : SecretSys := ⟨.empty, fun _ => none, 0, none, []⟩

variable {s s' : SecretSys} {i : ℕ} {o : Outcome}

theorem advance_eq_some (h : s.step (.advance i o) = some s') :
    ∃ t u pc, s.tasks[i]? = some t ∧ s.next i o t.job t.pc = some (u, pc)
      ∧ s' = { u with tasks := s.tasks.set i ⟨t.job, pc⟩ } := by
  simp only [step, Option.bind_eq_bind, Option.bind_eq_some_iff] at h
  obtain ⟨t, ht, ⟨u, pc⟩, hu, h⟩ := h
  cases h
  exact ⟨t, u, pc, ht, hu, rfl⟩

@[simp] theorem store_keychain (ref r : SecretRef) (secret : String) :
    (s.store ref secret).keychain r = if r = ref then some secret else s.keychain r := rfl

@[simp] theorem erase_keychain (ref r : SecretRef) :
    (s.erase ref).keychain r = if r = ref then none else s.keychain r := rfl

end SecretSys

end BuilderPro
