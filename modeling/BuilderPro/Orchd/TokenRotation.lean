import BuilderPro.Lib.Runs
import BuilderPro.Orchd.Accounts

/-!
# One exchange at a time

An identity provider that rotates the refresh token takes each of them once.  A refresh reads the
stored token, exchanges it and stores what it has got in steps between which others run; as long as
none reads the stored token while another is under way, what is stored is from the last exchange
(`stored_of_one_exchange`).
-/

namespace BuilderPro

/-- A provider whose `n`-th exchange has its own refresh token, which is good for the next one. -/
structure IdentityProvider where
  access : ℕ → String
  refresh : ℕ → String
  expiresInMs : ℕ → Option ℤ
  rotates : Function.Injective refresh

namespace IdentityProvider

variable (idp : IdentityProvider)

def issued (n : ℕ) : Issued := ⟨idp.access n, some (idp.refresh n), idp.expiresInMs n⟩

/-- After `n` exchanges, every refresh token but the last is rejected. -/
def exchange (n : ℕ) (refresh : String) : Option Issued :=
  if refresh = idp.refresh n then some (idp.issued (n + 1)) else none

/-- Whether one of the first `n` exchanges has used a refresh token up. -/
def consumed (n : ℕ) (refresh : String) : Bool :=
  (List.range n).any fun k => idp.refresh k == refresh

theorem not_consumed (n : ℕ) : idp.consumed n (idp.refresh n) = false := by
  simp only [consumed, List.any_eq_false, List.mem_range, beq_iff_eq]
  intro k hk h
  have := idp.rotates h
  omega

end IdentityProvider

/-- The calls of `token_for` for one account, and its provider. No step reads the last three. -/
structure ExchangeSys where
  accounts : SecretSys
  /-- How many exchanges have gone through. -/
  exchanges : ℕ
  /-- The exchange a task has made. -/
  madeBy : ℕ → ℕ
  /-- The exchange the row's expiry is from. -/
  rowFrom : ℕ
  /-- Whether a refresh token has been presented that was used up. -/
  replayed : Bool

inductive ExchangeAction
  | tick (ms : ℕ)
  | call
  | advance (i : ℕ) (ok : Bool)

namespace ExchangeSys

def step (idp : IdentityProvider) (id : String) (s : ExchangeSys) :
    ExchangeAction → Option ExchangeSys
  | .tick ms => do
    let a ← s.accounts.step (.tick ms)
    return { s with accounts := a }
  | .call => do
    let a ← s.accounts.step (.request (.tokenFor id))
    return { s with accounts := a }
  | .advance i ok => do
    let t ← s.accounts.tasks[i]?
    match t.pc with
    | .secretRead _ refresh =>
      let answer := idp.exchange s.exchanges refresh
      let a ← s.accounts.step (.advance i ⟨ok, "", answer⟩)
      let replayed := s.replayed || idp.consumed s.exchanges refresh
      if answer.isSome then
        return { s with
          accounts := a, exchanges := s.exchanges + 1, replayed := replayed,
          madeBy := Function.update s.madeBy i (s.exchanges + 1) }
      else return { s with accounts := a, replayed := replayed }
    | .rewritten _ _ _ =>
      let a ← s.accounts.step (.advance i ⟨ok, "", none⟩)
      return { s with accounts := a, rowFrom := if ok then s.madeBy i else s.rowFrom }
    | _ =>
      let a ← s.accounts.step (.advance i ⟨ok, "", none⟩)
      return { s with accounts := a }

end ExchangeSys

/-- Whether a task has read the stored refresh token and has not updated the row yet. -/
def SecretPc.refreshing : SecretPc → Bool
  | .secretRead _ _ => true
  | .refreshed _ _ => true
  | .tokenRefreshed _ _ _ => true
  | .rewritten _ _ _ => true
  | _ => false

/-- Whether a refresh may go on: nobody else is under way when it reads the stored token, and what it
stores goes in. -/
def SecretPc.MovesAlone (tasks : List SecretTask) (ok : Bool) : SecretPc → Prop
  | .rowRead _ => ∀ u ∈ tasks, u.pc.refreshing = false
  | .refreshed _ _ | .tokenRefreshed _ _ _ | .rewritten _ _ _ => ok = true
  | _ => True

instance (tasks : List SecretTask) (ok : Bool) (pc : SecretPc) :
    Decidable (pc.MovesAlone tasks ok) := by
  unfold SecretPc.MovesAlone
  split <;> infer_instance

namespace ExchangeSys

variable (idp : IdentityProvider) (id : String) (s : ExchangeSys)

def TokenFrom (n : ℕ) : Prop :=
  s.accounts.keychain (accountRef id SecretKind.token.name) = some (idp.access n)

def RefreshFrom (n : ℕ) : Prop :=
  s.accounts.keychain (accountRef id SecretKind.refresh.name) = some (idp.refresh n)

/-- Whether what is stored belongs to the most recent exchange. -/
structure FromLast : Prop where
  token : s.TokenFrom idp id s.exchanges
  refresh : s.RefreshFrom idp id s.exchanges
  row : s.rowFrom = s.exchanges
  expiry : ∃ row now, s.accounts.ext.accounts.lookup id = some row
    ∧ row.expiresAt = (idp.expiresInMs s.exchanges).map (expiresAtFrom now)

/-- Whether a step is no refresh's that gets in another's way, or that loses what it has got. -/
def Alone : ExchangeAction → Prop
  | .advance i ok => ∀ t ∈ s.accounts.tasks[i]?, t.pc.MovesAlone s.accounts.tasks ok
  | _ => True

instance (a : ExchangeAction) : Decidable (s.Alone a) := by
  unfold Alone
  split <;> infer_instance

/-- How far what a task has got is stored. -/
def Serves (i : ℕ) : SecretPc → Prop
  | .secretRead _ refresh => refresh = idp.refresh s.exchanges ∧ s.FromLast idp id
  | .refreshed _ issued => issued = idp.issued s.exchanges ∧ s.madeBy i = s.exchanges
  | .tokenRefreshed _ issued refresh => issued = idp.issued s.exchanges
    ∧ refresh = idp.refresh s.exchanges ∧ s.madeBy i = s.exchanges
    ∧ s.TokenFrom idp id s.exchanges
  | .rewritten _ _ expiresAt => s.madeBy i = s.exchanges ∧ s.TokenFrom idp id s.exchanges
    ∧ s.RefreshFrom idp id s.exchanges
    ∧ ∃ now, expiresAt = (idp.expiresInMs s.exchanges).map (expiresAtFrom now)
  | _ => True

end ExchangeSys

structure ExchangeInv (idp : IdentityProvider) (id : String) (s : ExchangeSys) : Prop where
  lock : s.accounts.lock = none
  row : (s.accounts.ext.accounts.lookup id).isSome
  jobs (t : SecretTask) (h : t ∈ s.accounts.tasks) : t.job = .tokenFor id
  rows (t : SecretTask) (h : t ∈ s.accounts.tasks) (row : AccountRow) (hrow : t.pc.row? = some row) :
    row.id = id
  replayed : s.replayed = false
  quiet (h : ∀ t ∈ s.accounts.tasks, t.pc.refreshing = false) : s.FromLast idp id
  one (i : ℕ) (t : SecretTask) (hi : s.accounts.tasks[i]? = some t)
    (ht : t.pc.refreshing = true) : (∀ j u, s.accounts.tasks[j]? = some u →
      u.pc.refreshing = true → j = i) ∧ s.Serves idp id i t.pc

namespace ExchangeInv

variable {idp : IdentityProvider} {id : String} {s s' : ExchangeSys} {i : ℕ} {t : SecretTask}
  {pc : SecretPc}

/-- Whether two states have the same stored. -/
structure Same (s s' : ExchangeSys) : Prop where
  keychain : s'.accounts.keychain = s.accounts.keychain
  accounts : s'.accounts.ext.accounts = s.accounts.ext.accounts
  exchanges : s'.exchanges = s.exchanges
  madeBy : s'.madeBy = s.madeBy
  rowFrom : s'.rowFrom = s.rowFrom

theorem Same.fromLast (h : Same s s') (hs : s.FromLast idp id) : s'.FromLast idp id := by
  obtain ⟨htoken, hrefresh, hrow, hexpiry⟩ := hs
  constructor
  · rwa [ExchangeSys.TokenFrom, h.keychain, h.exchanges]
  · rwa [ExchangeSys.RefreshFrom, h.keychain, h.exchanges]
  · rw [h.rowFrom, h.exchanges, hrow]
  · rwa [h.accounts, h.exchanges]

theorem Same.serves (h : Same s s') (hs : s.Serves idp id i pc) : s'.Serves idp id i pc := by
  cases pc with
  | secretRead => exact ⟨h.exchanges ▸ hs.1, h.fromLast hs.2⟩
  | refreshed => simpa only [ExchangeSys.Serves, h.exchanges, h.madeBy] using hs
  | tokenRefreshed =>
    simpa only [ExchangeSys.Serves, ExchangeSys.TokenFrom, h.exchanges, h.madeBy, h.keychain] using hs
  | rewritten =>
    simpa only [ExchangeSys.Serves, ExchangeSys.TokenFrom, ExchangeSys.RefreshFrom, h.exchanges,
      h.madeBy, h.keychain] using hs
  | _ => trivial

/-- The tasks of a step that sets one: the others are as they were. -/
theorem getElem?_set {l l' : List SecretTask} {t' : SecretTask} (hl : l' = l.set i t') {j : ℕ}
    {u : SecretTask} (hu : l'[j]? = some u) : (j = i ∧ u = t') ∨ (j ≠ i ∧ l[j]? = some u) := by
  rw [hl, List.getElem?_set] at hu
  split_ifs at hu with hij
  · cases hu
    exact .inl ⟨hij.symm, rfl⟩
  · exact .inr ⟨Ne.symm hij, hu⟩

/-- A step of a task that is the only one to refresh, before it or after it. -/
theorem set_sole (hI : ExchangeInv idp id s) (hi : s.accounts.tasks[i]? = some t)
    (hothers : ∀ j u, j ≠ i → s.accounts.tasks[j]? = some u → u.pc.refreshing = false)
    (htasks : s'.accounts.tasks = s.accounts.tasks.set i ⟨t.job, pc⟩)
    (hlock : s'.accounts.lock = none) (hacc : (s'.accounts.ext.accounts.lookup id).isSome)
    (hrow : ∀ row, pc.row? = some row → row.id = id) (hreplayed : s'.replayed = false)
    (hserves : pc.refreshing = true → s'.Serves idp id i pc)
    (hdone : pc.refreshing = false → s'.FromLast idp id) : ExchangeInv idp id s' := by
  have hlt : i < s.accounts.tasks.length := (List.getElem?_eq_some_iff.1 hi).1
  have hnew : s'.accounts.tasks[i]? = some ⟨t.job, pc⟩ := by
    rw [htasks]
    simp [hlt]
  refine ⟨hlock, hacc, fun u hu => ?_, fun u hu => ?_, hreplayed, fun hquiet => ?_,
    fun j u hu hrefreshing => ?_⟩
  · rcases List.mem_or_eq_of_mem_set (htasks ▸ hu) with hu | rfl
    · exact hI.jobs u hu
    · exact hI.jobs t (List.mem_of_getElem? hi)
  · rcases List.mem_or_eq_of_mem_set (htasks ▸ hu) with hu | rfl
    · exact hI.rows u hu
    · exact hrow
  · exact hdone (hquiet _ (List.mem_of_getElem? hnew))
  · rcases getElem?_set htasks hu with ⟨rfl, rfl⟩ | ⟨hne, hu⟩
    · refine ⟨fun k v hv hk => ?_, hserves hrefreshing⟩
      rcases getElem?_set htasks hv with ⟨rfl, -⟩ | ⟨hne, hv⟩
      · rfl
      · rw [hothers k v hne hv] at hk
        cases hk
    · rw [hothers j u hne hu] at hrefreshing
      cases hrefreshing

/-- A step of a task that does not refresh. -/
theorem set_quiet (hI : ExchangeInv idp id s) (hi : s.accounts.tasks[i]? = some t)
    (hs : Same s s') (htasks : s'.accounts.tasks = s.accounts.tasks.set i ⟨t.job, pc⟩)
    (hlock : s'.accounts.lock = none) (hrow : ∀ row, pc.row? = some row → row.id = id)
    (hreplayed : s'.replayed = false) (ht : t.pc.refreshing = false)
    (hpc : pc.refreshing = false) : ExchangeInv idp id s' := by
  refine ⟨hlock, hs.accounts ▸ hI.row, fun u hu => ?_, fun u hu => ?_, hreplayed, fun hquiet => ?_,
    fun j u hu hrefreshing => ?_⟩
  · rcases List.mem_or_eq_of_mem_set (htasks ▸ hu) with hu | rfl
    · exact hI.jobs u hu
    · exact hI.jobs t (List.mem_of_getElem? hi)
  · rcases List.mem_or_eq_of_mem_set (htasks ▸ hu) with hu | rfl
    · exact hI.rows u hu
    · exact hrow
  · refine hs.fromLast (hI.quiet fun u hu => ?_)
    obtain ⟨j, hj⟩ := List.mem_iff_getElem?.1 hu
    by_cases hij : j = i
    · obtain rfl : t = u := Option.some.inj (hi.symm.trans (hij ▸ hj))
      exact ht
    · refine hquiet u (List.mem_of_getElem? (i := j) ?_)
      rw [htasks, List.getElem?_set_ne (Ne.symm hij)]
      exact hj
  · rcases getElem?_set htasks hu with ⟨rfl, rfl⟩ | ⟨hne, hu⟩
    · rw [hpc] at hrefreshing
      cases hrefreshing
    · obtain ⟨hone, hserves⟩ := hI.one j u hu hrefreshing
      refine ⟨fun k v hv hk => ?_, hs.serves hserves⟩
      rcases getElem?_set htasks hv with ⟨rfl, rfl⟩ | ⟨-, hv⟩
      · rw [hpc] at hk
        cases hk
      · exact hone k v hv hk

theorem spawn (hI : ExchangeInv idp id s) (hs : Same s s')
    (htasks : s'.accounts.tasks = s.accounts.tasks ++ [⟨.tokenFor id, .start⟩])
    (hlock : s'.accounts.lock = none) (hreplayed : s'.replayed = false) :
    ExchangeInv idp id s' := by
  have hmem : ∀ u ∈ s'.accounts.tasks, u ∈ s.accounts.tasks ∨ u = ⟨.tokenFor id, .start⟩ := by
    intro u hu
    rw [htasks, List.mem_append, List.mem_singleton] at hu
    exact hu
  have hget : ∀ {j : ℕ} {u : SecretTask}, s'.accounts.tasks[j]? = some u →
      u.pc.refreshing = true → s.accounts.tasks[j]? = some u := by
    intro j u hu hrefreshing
    rw [htasks, List.getElem?_append] at hu
    split_ifs at hu
    · exact hu
    · rw [List.getElem?_singleton] at hu
      split_ifs at hu
      cases hu
      cases hrefreshing
  refine ⟨hlock, hs.accounts ▸ hI.row, fun u hu => ?_, fun u hu row hrow => ?_, hreplayed,
    fun hquiet => hs.fromLast (hI.quiet fun u hu => hquiet u ?_), fun j u hu hrefreshing => ?_⟩
  · rcases hmem u hu with hu | rfl
    · exact hI.jobs u hu
    · rfl
  · rcases hmem u hu with hu | rfl
    · exact hI.rows u hu row hrow
    · cases hrow
  · rw [htasks]
    exact List.mem_append_left _ hu
  · obtain ⟨hone, hserves⟩ := hI.one j u (hget hu hrefreshing) hrefreshing
    exact ⟨fun k v hv hk => hone k v (hget hv hk) hk, hs.serves hserves⟩

/-- What a step of a task has been: one of `token_for`. -/
theorem tokenFor_of_advance (hI : ExchangeInv idp id s) {o : Outcome} {a : SecretSys}
    (hi : s.accounts.tasks[i]? = some t) (h : s.accounts.step (.advance i o) = some a) :
    ∃ u pc', s.accounts.tokenFor o id t.pc = some (u, pc')
      ∧ a = { u with tasks := s.accounts.tasks.set i ⟨t.job, pc'⟩ } := by
  obtain ⟨t', u, pc', hi', hu, rfl⟩ := SecretSys.advance_eq_some h
  obtain rfl : t = t' := Option.some.inj (hi.symm.trans hi')
  rw [hI.jobs t (List.mem_of_getElem? hi)] at hu
  exact ⟨u, pc', hu, rfl⟩

/-- A task that has not read the stored token yet. -/
theorem step_early (hI : ExchangeInv idp id s) {ok : Bool} {a : SecretSys}
    (hi : s.accounts.tasks[i]? = some t)
    (hearly : t.pc = .start ∨ ∃ row, t.pc = .rowRead row)
    (halone : s.Alone (.advance i ok))
    (h : s.accounts.step (.advance i ⟨ok, "", none⟩) = some a) :
    ExchangeInv idp id { s with accounts := a } := by
  obtain ⟨u, pc', hu, rfl⟩ := hI.tokenFor_of_advance hi h
  have hsame : ∀ tasks, Same s { s with accounts := { s.accounts with tasks := tasks } } :=
    fun _ => ⟨rfl, rfl, rfl, rfl, rfl⟩
  have hreply : ∀ ref, (s.accounts.reply ⟨ok, "", none⟩ ref).refreshing = false
      ∧ (s.accounts.reply ⟨ok, "", none⟩ ref).row? = none := by
    intro ref
    unfold SecretSys.reply
    split
    · split_ifs <;> exact ⟨rfl, rfl⟩
    · exact ⟨rfl, rfl⟩
  rcases hearly with hpc | ⟨row, hpc⟩
  · rw [hpc] at hu
    simp only [SecretSys.tokenFor] at hu
    split_ifs at hu
    split at hu
    · cases hu
      exact hI.set_quiet hi (hsame _) rfl hI.lock (fun _ h => by cases h) hI.replayed
        (by rw [hpc]; rfl) rfl
    · rename_i row hrow
      have hrowId := KeyedTable.key_eq hrow
      split at hu
      · cases hu
        exact hI.set_quiet hi (hsame _) rfl hI.lock
          (fun _ h => by rw [(hreply _).2] at h; cases h) hI.replayed (by rw [hpc]; rfl) (hreply _).1
      · split_ifs at hu <;> cases hu
        · exact hI.set_quiet hi (hsame _) rfl hI.lock (fun _ h => by cases h; exact hrowId)
            hI.replayed (by rw [hpc]; rfl) rfl
        · exact hI.set_quiet hi (hsame _) rfl hI.lock
            (fun _ h => by rw [(hreply _).2] at h; cases h) hI.replayed (by rw [hpc]; rfl)
            (hreply _).1
  · have hrowId := hI.rows t (List.mem_of_getElem? hi) row (by rw [hpc]; rfl)
    have hothers : ∀ u ∈ s.accounts.tasks, u.pc.refreshing = false := by
      have := halone t hi
      rwa [hpc] at this
    rw [hpc] at hu
    simp only [SecretSys.tokenFor] at hu
    split at hu
    · rename_i refresh hrefresh
      have hlast := hI.quiet hothers
      have hstored : refresh = idp.refresh s.exchanges := by
        have := hlast.refresh
        rw [ExchangeSys.RefreshFrom, ← hrowId, hrefresh] at this
        exact Option.some.inj this
      split_ifs at hu <;> cases hu
      · exact hI.set_sole hi (fun j u _ hu => hothers u (List.mem_of_getElem? hu)) rfl hI.lock hI.row
          (fun _ h => by cases h; exact hrowId) hI.replayed
          (fun _ => ⟨hstored, (hsame _).fromLast hlast⟩) (fun h => by cases h)
      · exact hI.set_quiet hi (hsame _) rfl hI.lock (fun _ h => by cases h) hI.replayed
          (by rw [hpc]; rfl) rfl
    · cases hu
      exact hI.set_quiet hi (hsame _) rfl hI.lock (fun _ h => by cases h) hI.replayed
        (by rw [hpc]; rfl) rfl

/-- A refresh that is under way is the only one. -/
theorem others_of_refreshing (hI : ExchangeInv idp id s) (hi : s.accounts.tasks[i]? = some t)
    (ht : t.pc.refreshing = true) (j : ℕ) (u : SecretTask) (hne : j ≠ i)
    (hu : s.accounts.tasks[j]? = some u) : u.pc.refreshing = false := by
  by_contra hrefreshing
  exact hne ((hI.one i t hi ht).1 j u hu (by simpa using hrefreshing))

/-- The exchange itself: the token that is presented is the last one. -/
theorem step_exchange (hI : ExchangeInv idp id s) {ok : Bool} {row : AccountRow} {refresh : String}
    (hi : s.accounts.tasks[i]? = some t) (hpc : t.pc = .secretRead row refresh)
    (h : s.step idp id (.advance i ok) = some s') : ExchangeInv idp id s' := by
  have hrefreshing : t.pc.refreshing = true := by rw [hpc]; rfl
  have hserves := (hI.one i t hi hrefreshing).2
  have hrowId := hI.rows t (List.mem_of_getElem? hi) row (by rw [hpc]; rfl)
  rw [hpc] at hserves
  obtain ⟨rfl, -⟩ := hserves
  have hanswer : idp.exchange s.exchanges (idp.refresh s.exchanges)
      = some (idp.issued (s.exchanges + 1)) := if_pos rfl
  simp only [ExchangeSys.step, hi, hpc, hanswer, Option.bind_eq_bind, Option.bind_some,
    Option.bind_eq_some_iff, Option.isSome_some, if_true] at h
  obtain ⟨a, ha, h⟩ := h
  cases h
  obtain ⟨u, pc', hu, rfl⟩ := hI.tokenFor_of_advance hi ha
  rw [hpc] at hu
  cases hu
  refine hI.set_sole hi (hI.others_of_refreshing hi hrefreshing) rfl hI.lock hI.row
    (fun _ h => by cases h; exact hrowId) ?_ (fun _ => ⟨rfl, ?_⟩) (fun h => by cases h)
  · rw [hI.replayed, idp.not_consumed]
    rfl
  · exact Function.update_self _ _ _

/-- The steps that store what the exchange has brought. -/
theorem step_store (hI : ExchangeInv idp id s) {a : SecretSys} (row : AccountRow) (issued : Issued)
    (hi : s.accounts.tasks[i]? = some t)
    (hpc : t.pc = .refreshed row issued ∨ ∃ refresh, t.pc = .tokenRefreshed row issued refresh)
    (h : s.accounts.step (.advance i ⟨true, "", none⟩) = some a) :
    ExchangeInv idp id { s with accounts := a } := by
  have hrefreshing : t.pc.refreshing = true := by rcases hpc with hpc | ⟨_, hpc⟩ <;> rw [hpc] <;> rfl
  have hserves := (hI.one i t hi hrefreshing).2
  have hrowId := hI.rows t (List.mem_of_getElem? hi) row
    (by rcases hpc with hpc | ⟨_, hpc⟩ <;> rw [hpc] <;> rfl)
  have hsole := hI.others_of_refreshing hi hrefreshing
  obtain ⟨u, pc', hu, rfl⟩ := hI.tokenFor_of_advance hi h
  rcases hpc with hpc | ⟨refresh, hpc⟩
  · rw [hpc] at hu hserves
    obtain ⟨rfl, hmade⟩ := hserves
    cases hu
    refine hI.set_sole hi hsole rfl hI.lock hI.row (fun _ h => by cases h; exact hrowId) hI.replayed
      (fun _ => ⟨rfl, rfl, hmade, ?_⟩) (fun h => by cases h)
    simp [ExchangeSys.TokenFrom, hrowId, IdentityProvider.issued]
  · rw [hpc] at hu hserves
    obtain ⟨rfl, rfl, hmade, htoken⟩ := hserves
    cases hu
    refine hI.set_sole hi hsole rfl hI.lock hI.row (fun _ h => by cases h; exact hrowId) hI.replayed
      (fun _ => ⟨hmade, ?_, ?_, s.accounts.clock, rfl⟩) (fun h => by cases h)
    · have hne : accountRef id SecretKind.token.name ≠ accountRef id SecretKind.refresh.name :=
        fun h => by cases (accountRef_inj.1 h).2
      rw [ExchangeSys.TokenFrom, hrowId, SecretSys.store_keychain, if_neg hne]
      exact htoken
    · simp [ExchangeSys.RefreshFrom, hrowId]

/-- The row's update, after which nothing of the exchange is left to store. -/
theorem step_update (hI : ExchangeInv idp id s) {a : SecretSys} {row : AccountRow} {issued : Issued}
    {expiresAt : Option ℤ} (hi : s.accounts.tasks[i]? = some t)
    (hpc : t.pc = .rewritten row issued expiresAt)
    (h : s.accounts.step (.advance i ⟨true, "", none⟩) = some a) :
    ExchangeInv idp id { s with accounts := a, rowFrom := s.madeBy i } := by
  have hrefreshing : t.pc.refreshing = true := by rw [hpc]; rfl
  have hserves := (hI.one i t hi hrefreshing).2
  have hrowId := hI.rows t (List.mem_of_getElem? hi) row (by rw [hpc]; rfl)
  obtain ⟨current, hcurrent⟩ := Option.isSome_iff_exists.1 hI.row
  obtain ⟨u, pc', hu, rfl⟩ := hI.tokenFor_of_advance hi h
  rw [hpc] at hu hserves
  obtain ⟨hmade, htoken, hrefresh, now, rfl⟩ := hserves
  simp only [SecretSys.tokenFor, hI.lock, hrowId, hcurrent, Option.isSome_none] at hu
  cases hu
  have hlookup : ∀ e b n, (s.accounts.ext.accounts.replace (current.updateTokens e b n)).lookup id
      = some (current.updateTokens e b n) := by
    intro e b n
    have hkey : current.id = id := KeyedTable.key_eq hcurrent
    have hid : (current.updateTokens e b n).id = id := hkey
    rw [KeyedTable.lookup_replace (by rwa [hid]), if_pos hid.symm]
  refine hI.set_sole hi (hI.others_of_refreshing hi hrefreshing) rfl rfl ?_
    (fun _ h => by cases h) hI.replayed (fun h => by cases h)
    fun _ => ⟨htoken, hrefresh, hmade, _, now, hlookup _ _ _, rfl⟩
  dsimp only
  rw [hlookup]
  rfl

/-- Every step that is taken alone keeps what is stored to one exchange. -/
theorem step (hI : ExchangeInv idp id s) {a : ExchangeAction} (halone : s.Alone a)
    (h : s.step idp id a = some s') : ExchangeInv idp id s' := by
  cases a with
  | tick ms =>
    cases h
    have hsame : Same s { s with
        accounts := { s.accounts with clock := s.accounts.clock + ms } } :=
      ⟨rfl, rfl, rfl, rfl, rfl⟩
    exact ⟨hI.lock, hI.row, hI.jobs, hI.rows, hI.replayed, fun hq => hsame.fromLast (hI.quiet hq),
      fun j u hu hr => ⟨(hI.one j u hu hr).1, hsame.serves (hI.one j u hu hr).2⟩⟩
  | call =>
    cases h
    exact hI.spawn ⟨rfl, rfl, rfl, rfl, rfl⟩ rfl hI.lock hI.replayed
  | advance i ok =>
    obtain ⟨t, hi, h'⟩ := Option.bind_eq_some_iff.1 h
    have halone' := halone t hi
    cases hpc : t.pc with
    | secretRead row refresh => exact hI.step_exchange hi hpc h
    | start | rowRead row =>
      simp only [hpc, Option.bind_eq_bind, Option.bind_eq_some_iff] at h'
      obtain ⟨a, ha, h'⟩ := h'
      cases h'
      exact hI.step_early hi (by simp [hpc]) halone ha
    | refreshed row issued | tokenRefreshed row issued refresh =>
      simp only [hpc, Option.bind_eq_bind, Option.bind_eq_some_iff] at h'
      rw [hpc] at halone'
      obtain ⟨a, ha, h'⟩ := h'
      cases h'
      obtain rfl : ok = true := halone'
      exact hI.step_store row issued hi (by simp [hpc]) ha
    | rewritten row issued expiresAt =>
      simp only [hpc, Option.bind_eq_bind, Option.bind_eq_some_iff] at h'
      rw [hpc] at halone'
      obtain ⟨a, ha, h'⟩ := h'
      cases h'
      obtain rfl : ok = true := halone'
      exact hI.step_update hi hpc ha
    | _ =>
      simp only [hpc, Option.bind_eq_bind, Option.bind_eq_some_iff] at h'
      obtain ⟨a, ha, -⟩ := h'
      obtain ⟨u, pc', hu, -⟩ := hI.tokenFor_of_advance hi ha
      rw [hpc] at hu
      cases hu

end ExchangeInv

namespace ExchangeSys

variable {idp : IdentityProvider} {id : String} {s t : ExchangeSys} {as : List ExchangeAction}

/-- As long as every refresh is alone with what it stores, no refresh token is presented twice, and
what is stored at rest is from the last exchange. -/
theorem stored_of_one_exchange (htasks : s.accounts.tasks = []) (hlock : s.accounts.lock = none)
    (hlast : s.FromLast idp id) (hreplayed : s.replayed = false)
    (halone : Runs.Along (step idp id) Alone s as) (hr : Runs.run (step idp id) s as = some t) :
    t.replayed = false ∧ (t.accounts.Settled → t.FromLast idp id) := by
  have hI : ExchangeInv idp id s := by
    obtain ⟨row, now, hrow, -⟩ := hlast.expiry
    refine ⟨hlock, by rw [hrow]; rfl, ?_, ?_, hreplayed, fun _ => hlast, ?_⟩ <;> simp [htasks]
  have hI' := halone.keeps (I := ExchangeInv idp id) (fun _ _ _ hu ha h => hu.step ha h) hI hr
  refine ⟨hI'.replayed, fun hsettled => hI'.quiet fun u hu => ?_⟩
  have hover := hsettled u hu
  rcases hpc : u.pc <;> rw [hpc] at hover <;> first | rfl | cases hover

/-! ### Two refreshes at a time -/

/-- A provider whose refresh tokens grow. -/
def growing : IdentityProvider where
  access n := String.ofList (List.replicate (n + 1) 'a')
  refresh n := String.ofList (List.replicate (n + 1) 'r')
  expiresInMs _ := some 3600000
  rotates m n h := by simpa using congrArg String.length h

/-- An account whose token has expired. -/
def expired : ExchangeSys where
  accounts :=
    { ext := { ExtStore.empty with accounts := ⟨[⟨"x", "prowl", "", .oauth, "x:token", [],
        some 3600000, some "x:refresh", 0, 0⟩], by decide⟩ }
      keychain := fun r =>
        if r = accountRef "x" SecretKind.token.name then some (growing.access 0)
        else if r = accountRef "x" SecretKind.refresh.name then some (growing.refresh 0)
        else none
      clock := 3600000, lock := none, tasks := [] }
  exchanges := 0
  madeBy _ := 0
  rowFrom := 0
  replayed := false

theorem expired_fromLast : expired.FromLast growing "x" :=
  ⟨rfl, rfl, rfl, _, 0, rfl, rfl⟩

/-- The second call reads the refresh token that the first is about to exchange. -/
def bothRead : List ExchangeAction :=
  [.call, .call, .advance 0 true, .advance 1 true, .advance 0 true, .advance 1 true,
    .advance 0 true, .advance 1 true]

/-- The second call comes in between the first one's two last steps. -/
def passedBy : List ExchangeAction :=
  [.call, .call, .advance 0 true, .advance 1 true, .advance 0 true, .advance 0 true,
    .advance 0 true, .advance 0 true, .advance 1 true, .advance 1 true, .advance 1 true,
    .advance 1 true, .advance 1 true, .advance 0 true]

theorem refreshes_overlap : expired.FromLast growing "x"
    ∧ (∃ t, Runs.run (step growing "x") expired bothRead = some t ∧ t.replayed = true)
    ∧ ∃ t, Runs.run (step growing "x") expired passedBy = some t ∧ t.accounts.Settled
      ∧ ¬t.FromLast growing "x" := by
  refine ⟨expired_fromLast, ⟨_, rfl, by decide +kernel⟩, _, rfl, by decide +kernel, fun h => ?_⟩
  exact absurd h.row (by decide +kernel)

/-- The second call starts when the first one is done and its token has expired. -/
def inTurn : List ExchangeAction :=
  [.call, .advance 0 true, .advance 0 true, .advance 0 true, .advance 0 true, .advance 0 true,
    .advance 0 true, .tick 3600000, .call, .advance 1 true, .advance 1 true, .advance 1 true,
    .advance 1 true, .advance 1 true, .advance 1 true]

theorem stored_of_one_exchange_inTurn : ∃ t,
    Runs.run (step growing "x") expired inTurn = some t ∧ t.exchanges = 2 ∧ t.accounts.Settled
      ∧ t.replayed = false ∧ (t.accounts.Settled → t.FromLast growing "x") := by
  refine ⟨_, rfl, by decide +kernel, by decide +kernel, ?_⟩
  exact @stored_of_one_exchange growing "x" expired _ inTurn rfl rfl expired_fromLast rfl
    (by decide +kernel) rfl

end ExchangeSys

end BuilderPro
