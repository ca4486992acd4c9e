import BuilderPro.Orchd.AccountSecrets

/-!
# No secret without its row

A new account's secrets are stored before its row is in, and a row's secrets are deleted before the
row is.  So every secret is one of a row or of a task that is about to insert one (`owned`), unless
such a task fails half-way, or a refresh or a bearer is stored that a delete has passed.  When no
step of a run is one of these, nothing is left behind (`secrets_owned_of_kept`).
-/

namespace BuilderPro

/-- Whether every bearer is a server's, and no server is there that a delete has taken away. -/
structure ServerInv (s : SecretSys) : Prop where
  owned : ∀ id, s.keychain (mcpBearerRef id) ≠ none → (s.ext.servers.lookup id).isSome
  erased : ∀ id, ⟨.deleteServer id, .serverErased⟩ ∈ s.tasks → s.keychain (mcpBearerRef id) = none
  gone : ∀ id, ⟨.deleteServer id, .over .ack⟩ ∈ s.tasks → s.ext.servers.lookup id = none

/-- Whether a keychain entry is of a kind that is looked after. -/
def SecretSys.Known (s : SecretSys) : Prop :=
  ∀ ref, s.keychain ref ≠ none →
    (∃ id, ∃ kind : SecretKind, ref = accountRef id kind.name) ∨ ∃ id, ref = mcpBearerRef id

namespace SecretStep

variable {s u : SecretSys} {i : ℕ} {o : Outcome} {job : SecretJob} {pc pc' : SecretPc}

theorem known (h : SecretStep s i o job pc u pc') (hs : s.Known) : u.Known := by
  have hstore : ∀ ref secret, ((∃ id, ∃ kind : SecretKind, ref = accountRef id kind.name)
      ∨ ∃ id, ref = mcpBearerRef id) → (s.store ref secret).Known := by
    intro ref secret href r hr
    rw [SecretSys.store_keychain] at hr
    split_ifs at hr with heq
    · rw [heq]
      exact href
    · exact hs r hr
  have herase : ∀ ref, (s.erase ref).Known := by
    intro ref r hr
    rw [SecretSys.erase_keychain] at hr
    split_ifs at hr
    · exact absurd rfl hr
    · exact hs r hr
  cases h with
  | tokenStored | refreshStored | restored => exact hstore _ _ (.inl ⟨_, _, rfl⟩)
  | keyStored => exact fun ref => hstore _ _ (.inl ⟨_, _, rfl⟩) ref
  | bearerStored => exact hstore _ _ (.inr ⟨_, rfl⟩)
  | erased | serverErased => exact herase _
  | _ => exact hs

/-- What a step does to the servers and their bearers. -/
theorem servers (h : SecretStep s i o job pc u pc') :
    (∃ id, job = .deleteServer id ∧ pc = .serverFound ∧ pc' = .serverErased
      ∧ u = s.erase (mcpBearerRef id))
    ∨ (∃ id, job = .deleteServer id ∧ pc = .serverErased ∧ pc' = .over .ack
      ∧ u.ext.servers = s.ext.servers.erase id ∧ u.keychain = s.keychain)
    ∨ (∃ id token, job = .setServerBearer id token ∧ pc = .checked ∧ pc' = .bearerStored
      ∧ o.ok = true ∧ u = s.store (mcpBearerRef id) token)
    ∨ ((∀ id, u.keychain (mcpBearerRef id) = s.keychain (mcpBearerRef id))
      ∧ (∀ id, (u.ext.servers.lookup id).isSome = (s.ext.servers.lookup id).isSome)
      ∧ ∀ id, job = .deleteServer id → pc' ≠ .serverErased ∧ pc' ≠ .over .ack) := by
  have hbearer : ∀ (id kind secret id' : String),
      (s.store (accountRef id kind) secret).keychain (mcpBearerRef id')
        = s.keychain (mcpBearerRef id') := by
    intro id kind secret id'
    rw [SecretSys.store_keychain, if_neg (accountRef_ne_mcpBearerRef _ _ _).symm]
  cases h with
  | serverErased => exact .inl ⟨_, rfl, rfl, rfl, rfl⟩
  | serverDeleted _ hservers => exact .inr (.inl ⟨_, rfl, rfl, rfl, hservers, rfl⟩)
  | bearerStored hok => exact .inr (.inr (.inl ⟨_, _, rfl, rfl, rfl, hok, rfl⟩))
  | ends hr | lost hr =>
    exact .inr (.inr (.inr ⟨fun _ => rfl, fun _ => rfl, fun _ _ => ⟨by simp, by simpa using hr⟩⟩))
  | tokenStored | refreshStored | restored =>
    exact .inr (.inr (.inr ⟨hbearer _ _ _, fun _ => rfl, fun _ h => by cases h⟩))
  | @keyStored _ _ key =>
    exact .inr (.inr (.inr ⟨hbearer o.id SecretKind.apikey.name key, fun _ => rfl,
      fun _ h => by cases h⟩))
  | erased =>
    refine .inr (.inr (.inr ⟨fun id => ?_, fun _ => rfl, fun _ h => by cases h⟩))
    rw [SecretSys.erase_keychain, if_neg (accountRef_ne_mcpBearerRef _ _ _).symm]
  | refStored | bearerSet =>
    exact .inr (.inr (.inr ⟨fun _ => rfl, fun _ => KeyedTable.isSome_replace,
      fun _ h => by cases h⟩))
  | serverFound | inserted =>
    exact .inr (.inr (.inr ⟨fun _ => rfl, fun _ => rfl, fun _ _ => ⟨by simp, by simp⟩⟩))
  | _ => exact .inr (.inr (.inr ⟨fun _ => rfl, fun _ => rfl, fun _ h => by cases h⟩))

end SecretStep

namespace ServerInv

variable {s u : SecretSys} {i : ℕ} {o : Outcome} {t : SecretTask} {pc : SecretPc}

theorem advance (hI : ServerInv s) (hi : s.tasks[i]? = some t) (hkeeps : t.Keeps s o)
    (h : SecretStep s i o t.job t.pc u pc) :
    ServerInv { u with tasks := s.tasks.set i ⟨t.job, pc⟩ } := by
  obtain ⟨job, pc₀⟩ := t
  have ht := List.mem_of_getElem? hi
  have hmem : ∀ {v : SecretTask}, v ∈ s.tasks.set i ⟨job, pc⟩ → v ∈ s.tasks ∨ v = ⟨job, pc⟩ :=
    List.mem_or_eq_of_mem_set
  rcases h.servers with ⟨id, rfl, rfl, rfl, rfl⟩ | ⟨id, rfl, rfl, rfl, hservers, hkeychain⟩
    | ⟨id, token, rfl, rfl, rfl, hok, rfl⟩ | ⟨hkeychain, hservers, hpc⟩
  · refine ⟨fun id' h => ?_, fun id' hv => ?_, fun id' hv => ?_⟩
    · rw [SecretSys.erase_keychain] at h
      split_ifs at h
      · exact absurd rfl h
      · exact hI.owned id' h
    · rw [SecretSys.erase_keychain]
      split_ifs with heq
      · rfl
      · rcases hmem hv with hv | hv
        · exact hI.erased id' hv
        · cases hv
          exact absurd rfl heq
    · rcases hmem hv with hv | hv
      · exact hI.gone id' hv
      · cases hv
  · have hnone := hI.erased id ht
    refine ⟨fun id' h => ?_, fun id' hv => ?_, fun id' hv => ?_⟩
    · rw [hkeychain] at h
      rw [hservers, KeyedTable.lookup_erase, if_neg (fun heq => ?_)]
      · exact hI.owned id' h
      · exact h (heq ▸ hnone)
    · rw [hkeychain]
      rcases hmem hv with hv | hv
      · exact hI.erased id' hv
      · cases hv
    · rw [hservers, KeyedTable.lookup_erase]
      rcases hmem hv with hv | hv
      · rw [hI.gone id' hv, ite_self]
      · cases hv
        exact if_pos rfl
  · obtain ⟨hrow, herased⟩ := hkeeps hok
    have hne : ∀ {id'}, ⟨.deleteServer id', .serverErased⟩ ∈ s.tasks → id' ≠ id := by
      rintro id' hv rfl
      simpa [SecretTask.hasErasedBearer] using herased _ hv
    refine ⟨fun id' h => ?_, fun id' hv => ?_, fun id' hv => ?_⟩
    · rw [SecretSys.store_keychain] at h
      split_ifs at h with heq
      · rw [mcpBearerRef_inj.1 heq]
        exact hrow
      · exact hI.owned id' h
    · rcases hmem hv with hv | hv
      · rw [SecretSys.store_keychain, if_neg (fun heq => hne hv (mcpBearerRef_inj.1 heq))]
        exact hI.erased id' hv
      · cases hv
    · rcases hmem hv with hv | hv
      · exact hI.gone id' hv
      · cases hv
  · refine ⟨fun id' h => ?_, fun id' hv => ?_, fun id' hv => ?_⟩
    · rw [hkeychain] at h
      rw [hservers]
      exact hI.owned id' h
    · rw [hkeychain]
      rcases hmem hv with hv | hv
      · exact hI.erased id' hv
      · simp only [SecretTask.mk.injEq] at hv
        exact absurd hv.2.symm (hpc id' hv.1.symm).1
    · rcases hmem hv with hv | hv
      · have hgone := hservers id'
        rw [hI.gone id' hv] at hgone
        simpa using hgone
      · simp only [SecretTask.mk.injEq] at hv
        exact absurd hv.2.symm (hpc id' hv.1.symm).2

end ServerInv

/-! ### Runs -/

namespace SecretSys

/-- What holds in every state of a run whose steps leave no secret behind. -/
structure SecretInv (s : SecretSys) : Prop where
  lock : s.LockInv
  accounts : AccountInv s
  servers : ServerInv s
  known : s.Known

variable {s s' : SecretSys}

theorem secretInv_fresh : SecretInv fresh where
  lock _ _ h := by cases h
  accounts := {
    owned := fun _ _ h => absurd rfl h
    issued := fun _ h => by cases h
    apart := fun _ _ _ _ _ h => by cases h
    drawn := fun _ h => by cases h
    erasing := fun _ _ h => by cases h
    rows := fun _ h => by cases h
    gone := fun _ h => by cases h }
  servers := {
    owned := fun _ h => absurd rfl h
    erased := fun _ h => by cases h
    gone := fun _ h => by cases h }
  known _ h := absurd rfl h

theorem SecretInv.request (hI : SecretInv s) (job : SecretJob) :
    SecretInv { s with tasks := s.tasks ++ [⟨job, .start⟩] } := by
  have hmem : ∀ {u : SecretTask}, u ∈ s.tasks ++ [⟨job, .start⟩] → u ∈ s.tasks ∨ u = ⟨job, .start⟩ :=
    fun hu => by simpa using hu
  have hget : ∀ {j : ℕ} {u : SecretTask}, (s.tasks ++ [⟨job, .start⟩])[j]? = some u →
      s.tasks[j]? = some u ∨ u = ⟨job, .start⟩ := by
    intro j u hu
    rw [List.getElem?_append] at hu
    split_ifs at hu
    · exact .inl hu
    · exact .inr (by simpa using List.mem_of_getElem? hu)
  have htouches : ∀ id, SecretTask.touches ⟨job, .start⟩ ≠ some id := by
    rintro id h
    rcases job <;> cases h
  refine ⟨fun j u hu hholds => ?_, ?_, ?_, hI.known⟩
  · rcases hget hu with hu | rfl
    · exact hI.lock j u hu hholds
    · cases hholds
  · constructor
    case owned =>
      intro id kind h
      rcases hI.accounts.owned id kind h with h | ⟨u, hu, h⟩
      · exact .inl h
      · exact .inr ⟨u, List.mem_append_left _ hu, h⟩
    case issued =>
      intro u hu
      rcases hmem hu with hu | rfl
      · exact hI.accounts.issued u hu
      · trivial
    case apart =>
      intro j k u v id hu hv hdraws hdraws'
      rcases hget hu with hu | rfl
      · rcases hget hv with hv | rfl
        · exact hI.accounts.apart j k u v id hu hv hdraws hdraws'
        · cases hdraws'
      · cases hdraws
    case drawn =>
      intro u hu id hdraws
      rcases hmem hu with hu | rfl
      · refine ⟨(hI.accounts.drawn u hu id hdraws).1, fun v hv => ?_⟩
        rcases hmem hv with hv | rfl
        · exact (hI.accounts.drawn u hu id hdraws).2 v hv
        · exact htouches id
      · cases hdraws
    case erasing =>
      intro id todo hu
      rcases hmem hu with hu | hu
      · exact hI.accounts.erasing id todo hu
      · cases hu
    case rows =>
      intro u hu row hrow
      rcases hmem hu with hu | rfl
      · exact hI.accounts.rows u hu row hrow
      · cases hrow
    case gone =>
      intro id hu
      rcases hmem hu with hu | hu
      · exact hI.accounts.gone id hu
      · cases hu
  · refine ⟨hI.servers.owned, fun id hu => ?_, fun id hu => ?_⟩
    · rcases hmem hu with hu | hu
      · exact hI.servers.erased id hu
      · cases hu
    · rcases hmem hu with hu | hu
      · exact hI.servers.gone id hu
      · cases hu

/-- What is looked after is in the accounts, the servers, the keychain and the tasks. -/
theorem SecretInv.congr (hI : SecretInv s) (haccounts : s'.ext.accounts = s.ext.accounts)
    (hservers : s'.ext.servers = s.ext.servers) (hkeychain : s'.keychain = s.keychain)
    (hlock : s'.lock = s.lock) (htasks : s'.tasks = s.tasks) : SecretInv s' := by
  obtain ⟨hL, hA, hS, hK⟩ := hI
  refine ⟨?_, hA.congr haccounts hkeychain htasks, ⟨?_, ?_, ?_⟩, ?_⟩
  · simpa only [LockInv, htasks, hlock] using hL
  · simpa only [hservers, hkeychain] using hS.owned
  · simpa only [htasks, hkeychain] using hS.erased
  · simpa only [htasks, hservers] using hS.gone
  · simpa only [Known, hkeychain] using hK

theorem addMcpServer_inserts {e e' : ExtStore} {new : NewMcpServer} {id : String} {now : ℤ}
    {row : McpServerRow} (h : e.addMcpServer new id now = .ok (e', row)) :
    ∃ x servers, x.id = id ∧ e.servers.insert x = some servers
      ∧ e' = { e with servers := servers } := by
  simp only [ExtStore.addMcpServer, Results.bind_eq_ok] at h
  obtain ⟨-, -, -, -, h⟩ := h
  split at h
  · rename_i servers hx
    cases h
    exact ⟨_, servers, rfl, hx, rfl⟩
  · cases h

/-- A step that is not a task's. -/
theorem secretInv_outside {a : SecretAction} (hI : SecretInv s) (hfresh : s.FreshIds a)
    (ha : ∀ i o, a ≠ .advance i o) (h : s.step a = some s') : SecretInv s' := by
  cases a with
  | domain d =>
    simp only [step] at h
    split_ifs at h
    cases h
    exact hI.congr rfl rfl rfl rfl rfl
  | tick ms =>
    cases h
    exact hI.congr rfl rfl rfl rfl rfl
  | addServer new id =>
    simp only [step] at h
    split_ifs at h
    split at h <;> cases h
    · rename_i e row he
      obtain ⟨x, servers, hid, hx, rfl⟩ := addMcpServer_inserts he
      refine ⟨hI.lock, hI.accounts.congr rfl rfl rfl,
        ⟨fun id' h => ?_, hI.servers.erased, fun id' hu => ?_⟩, hI.known⟩
      · exact KeyedTable.isSome_insert hx (hI.servers.owned id' h)
      · rw [KeyedTable.lookup_insert hx, if_neg, hI.servers.gone id' hu]
        rintro rfl
        exact hfresh _ hu (by rw [hid])
    · exact hI
  | request job =>
    cases h
    exact hI.request job
  | advance i o => exact absurd rfl (ha i o)

theorem secretInv_step {a : SecretAction} (hI : SecretInv s) (hkeeps : s.KeepsSecrets a)
    (hfresh : s.FreshIds a) (h : s.step a = some s') : SecretInv s' := by
  by_cases ha : ∀ i o, a ≠ .advance i o
  · exact secretInv_outside hI hfresh ha h
  · push Not at ha
    obtain ⟨i, o, rfl⟩ := ha
    obtain ⟨t, u, pc, hi, hu, rfl⟩ := advance_eq_some h
    have hstep := next_step hu
    have hk := hkeeps t hi
    have hf := hfresh t hi
    exact ⟨hI.lock.set hi rfl hstep.lockStep, hI.accounts.advance hI.lock hi hk hf hstep,
      hI.servers.advance hi hk hstep, hstep.known hI.known⟩

/-- In every run of connector and server requests whose steps leave no secret behind, once no
request is on its way every keychain entry is one of an account or a server that is there, and
none is left of those whose delete has been acknowledged. -/
theorem secrets_owned_of_kept {as : List SecretAction}
    (hkeeps : Runs.Along step KeepsSecrets fresh as)
    (hfresh : Runs.Along step FreshIds fresh as) (hr : Runs.run step fresh as = some s)
    (hsettled : s.Settled) :
    (∀ ref, s.keychain ref ≠ none →
      (∃ id, ∃ kind : SecretKind, ref = accountRef id kind.name
        ∧ (s.ext.accounts.lookup id).isSome)
      ∨ ∃ id, ref = mcpBearerRef id ∧ (s.ext.servers.lookup id).isSome)
    ∧ (∀ id, ⟨.deleteAccount id, .over .ack⟩ ∈ s.tasks →
      ∀ kind : SecretKind, s.keychain (accountRef id kind.name) = none)
    ∧ ∀ id, ⟨.deleteServer id, .over .ack⟩ ∈ s.tasks → s.keychain (mcpBearerRef id) = none := by
  have hI : SecretInv s := (hkeeps.and hfresh).keeps
    (fun s a t hI hC h => secretInv_step hI hC.1 hC.2 h) secretInv_fresh hr
  have haccount : ∀ (id : String) (kind : SecretKind),
      s.keychain (accountRef id kind.name) ≠ none → (s.ext.accounts.lookup id).isSome := by
    intro id kind h
    rcases hI.accounts.owned id kind h with ⟨row, hrow, -⟩ | ⟨t, ht, kinds, hbrings, -⟩
    · rw [hrow]
      rfl
    · obtain ⟨r, hr⟩ := SecretPc.eq_over (hsettled t ht)
      rw [hr] at hbrings
      cases hbrings
  refine ⟨fun ref h => ?_, fun id hid kind => ?_, fun id hid => ?_⟩
  · rcases hI.known ref h with ⟨id, kind, rfl⟩ | ⟨id, rfl⟩
    · exact .inl ⟨id, kind, rfl, haccount id kind h⟩
    · exact .inr ⟨id, rfl, hI.servers.owned id h⟩
  · by_contra h
    have hrow := haccount id kind h
    rw [hI.accounts.gone id hid] at hrow
    cases hrow
  · by_contra h
    have hrow := hI.servers.owned id h
    rw [hI.servers.gone id hid] at hrow
    cases hrow

/-- The next steps of a job, when all goes well. -/
def goes (i n : ℕ) : List SecretAction :=
  List.replicate n (.advance i ⟨true, "x", some ⟨"a", some "r", some 0⟩⟩)

/-- An account whose token has expired as it comes, and a refresh of it that has read the refresh
token. -/
def refreshBegun : List SecretAction :=
  .request (.completeOAuth ⟨"notion", "", []⟩) :: goes 0 4 ++ .request (.tokenFor "x") :: goes 1 2

/-- The delete is acknowledged before the exchange is over. -/
theorem refresh_outlives_account : ∃ s,
    Runs.run step fresh
        (refreshBegun ++ .request (.deleteAccount "x") :: goes 2 4 ++ goes 1 4) = some s
      ∧ s.Settled ∧ ⟨.deleteAccount "x", .over .ack⟩ ∈ s.tasks
      ∧ s.ext.accounts.lookup "x" = none
      ∧ s.keychain (accountRef "x" SecretKind.token.name) = some "a" := by
  refine ⟨_, rfl, ?_, ?_, ?_, ?_⟩ <;> decide +kernel

/-- A server whose bearer is set, next to it. -/
def bearerSet : List SecretAction :=
  .addServer
    ⟨"search", .http, some "http://localhost:1", none, [], .empty, .global, none, .none, none, none,
      true, 30000, 0⟩ "s"
    :: .request (.setServerBearer "s" "b") :: goes 2 4

/-- The refresh is done before the account goes. -/
def oneByOne : List SecretAction :=
  refreshBegun ++ goes 1 4 ++ bearerSet ++ .request (.deleteAccount "x") :: goes 3 4
    ++ .request (.deleteServer "s") :: goes 4 3

theorem secrets_owned_of_kept_oneByOne : ∃ s, Runs.run step fresh oneByOne = some s ∧ s.Settled
    ∧ s.keychain (accountRef "x" SecretKind.refresh.name) = none
    ∧ s.keychain (mcpBearerRef "s") = none := by
  refine ⟨_, rfl, by decide +kernel, ?_⟩
  have h := @secrets_owned_of_kept _ oneByOne (by decide +kernel) (by decide +kernel) rfl
    (by decide +kernel)
  exact ⟨h.2.1 "x" (by decide +kernel) .refresh, h.2.2 "s" (by decide +kernel)⟩

end SecretSys

end BuilderPro
