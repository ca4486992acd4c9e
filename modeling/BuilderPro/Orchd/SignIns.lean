import BuilderPro.Orchd.SignInAccounts

/-!
# Signing in to a provider

A provider that checks the verifier against the challenge a code was granted for lets a code through
only for the sign-in it was granted to (`signed_in`).
-/

namespace BuilderPro

namespace SignIns

variable {lib : OAuthLib} {granted : String → String → Option String} {known : String → Prop}
  {s t : SignIns} {i : ℕ} {o : Outcome}

/-- What a run keeps. -/
structure SignInInv (lib : OAuthLib) (granted : String → String → Option String)
    (known : String → Prop) (s : SignIns) : Prop where
  ledger : Ledger lib s
  accounted : Accounted lib granted known s

theorem Started.inv (h : s.Started) : SignInInv lib granted
    (fun id => (s.secrets.ext.accounts.lookup id).isSome = true) s where
  ledger := h.ledger
  accounted :=
    { task := fun i c hc => by simp [h.calls] at hc
      job := fun i t p hi => by simp [h.tasks] at hi
      keys := fun i t hi => by simp [h.tasks] at hi
      rows := fun row hrow _ => .inl (KeyedTable.exists_row.1 ⟨row, hrow, rfl⟩) }

theorem SignInInv.step (h : SignInInv lib granted known s) {a : SignInAction}
    (hfresh : s.Fresh lib a) (hchecked : s.Checked lib granted a)
    (hstep : s.step lib a = some t) : SignInInv lib granted known t := by
  cases a with
  | registerOAuthProvider provider config =>
    obtain rfl := Option.some.inj hstep
    exact ⟨h.ledger.congr rfl rfl rfl rfl, h.accounted.congr rfl rfl rfl⟩
  | beginOAuth provider label scopes redirect state verifier =>
    simp only [SignIns.step] at hstep
    split at hstep
    · rename_i u request hbegin
      obtain rfl := Option.some.inj hstep
      refine ⟨h.ledger.beginOAuth hfresh hbegin, ?_⟩
      obtain ⟨signIn, rfl, -⟩ := beginOAuth_eq_ok hbegin
      exact h.accounted.congr rfl rfl rfl
    · obtain rfl := Option.some.inj hstep
      exact h
  | completeOAuth state code httpError =>
    obtain rfl := Option.some.inj hstep
    exact ⟨h.ledger.completeOAuth state code httpError,
      h.accounted.completeOAuth state code httpError⟩
  | secrets a =>
    have hsecrets : s.onSecrets a = some t := hstep
    unfold onSecrets at hsecrets
    split at hsecrets
    · cases hsecrets
    · rename_i ha
      obtain ⟨u, hu, rfl⟩ := Option.map_eq_some_iff.1 hsecrets
      exact ⟨h.ledger.congr rfl rfl rfl rfl, h.accounted.secrets (fun p hp => ha p hp) hchecked hu⟩

/-- An account of a sign-in: the call that took the sign-in's entry has exchanged, with its own
verifier, a code that was granted for its own challenge and for nobody else's. -/
structure SignedIn (granted : String → String → Option String) (s : SignIns) (b : Begun)
    (row : AccountRow) (i : ℕ) (c : Completion) : Prop where
  call : s.calls i = some c
  state : c.state = b.request.state
  made : ∃ r, s.secrets.tasks[i]? =
    some ⟨.completeOAuth b.signIn.toPendingOAuth, .over (.account r)⟩ ∧ r.id = row.id
  provider : row.provider = b.signIn.provider
  label : row.label = b.signIn.label
  scopes : row.scopes = b.request.scopes
  sent : c.request.pkceVerifier = b.signIn.pkceVerifier ∧ c.request.redirect = b.request.redirect
  own : granted c.request.tokenUrl c.request.code = some b.request.challenge
  only (b' : Begun) (hb' : b' ∈ s.begun)
    (h : granted c.request.tokenUrl c.request.code = some b'.request.challenge) : b' = b

theorem Ledger.eq_of_challenge (h : Ledger lib s) {b b' : Begun} (hb : b ∈ s.begun)
    (hb' : b' ∈ s.begun) (heq : b.request.challenge = b'.request.challenge) : b = b' := by
  have hpairwise : s.begun.Pairwise fun b b' =>
      b.request.challenge = b'.request.challenge → b = b' :=
    h.apart.imp fun hne heq => absurd heq hne.2
  exact List.Pairwise.forall_of_forall_of_flip (fun _ _ _ => rfl) hpairwise
    (hpairwise.imp fun h heq => (h heq.symm).symm) hb hb' heq

theorem SignInInv.signedIn (h : SignInInv lib granted known s) {row : AccountRow}
    (hrow : row ∈ s.secrets.ext.accounts.rows) (hkind : row.authKind = .oauth)
    (hnew : ¬known row.id) : ∃ b ∈ s.begun, ∃ i c, SignedIn granted s b row i c := by
  obtain ⟨i, c, r, hc, hi, hsame⟩ := (h.accounted.rows row hrow hkind).resolve_left hnew
  obtain ⟨-, b, hb, hstate, hsignIn⟩ := h.ledger.calls i c hc
  obtain ⟨hchallenge, hscopes, hredirect⟩ := h.ledger.begun b hb
  obtain ⟨pc, hpc, hmade, hgranted⟩ := h.accounted.task i c hc
  obtain rfl : pc = .over (.account r) :=
    (SecretTask.mk.inj (Option.some.inj (hpc.symm.trans hi))).2
  have hcode : granted c.config.tokenUrl c.code = some b.request.challenge := by
    rw [hgranted rfl, hchallenge, hsignIn]
  obtain ⟨hprovider, hlabel, hrscopes⟩ := hmade
  refine ⟨b, hb, i, c, ?_⟩
  exact
    { call := hc
      state := hstate.symm
      made := ⟨r, by rw [hi, hsignIn], hsame.1⟩
      provider := by rw [← hsame.2.1, hprovider, hsignIn]
      label := by rw [← hsame.2.2.1, hlabel, hsignIn]
      scopes := by rw [← hsame.2.2.2.1, hrscopes, hscopes, hsignIn]
      sent := ⟨by rw [hsignIn]; rfl, by rw [hredirect, hsignIn]; rfl⟩
      own := hcode
      only := fun b' hb' h' => h.ledger.eq_of_challenge hb' hb
        (Option.some.inj (h'.symm.trans hcode)) }

/-- In every run, an account that is signed in to is one sign-in's, which has no other, and a state
that was not drawn or has been presented is refused. -/
theorem signed_in (hs : s.Started) {as : List SignInAction}
    (has : Runs.Along (step lib) (fun s a => s.Fresh lib a ∧ s.Checked lib granted a) s as)
    (hrun : Runs.run (step lib) s as = some t) :
    (∀ row ∈ t.secrets.ext.accounts.rows, row.authKind = .oauth →
        ¬(s.secrets.ext.accounts.lookup row.id).isSome →
        ∃ b ∈ t.begun, ∃ i c, SignedIn granted t b row i c)
      ∧ (∀ b ∈ t.begun, ∀ row ∈ t.secrets.ext.accounts.rows,
        ∀ row' ∈ t.secrets.ext.accounts.rows, ∀ i j c d, SignedIn granted t b row i c →
          SignedIn granted t b row' j d → row = row')
      ∧ Replies t.begun t.answered := by
  have hI : SignInInv lib granted (fun id => (s.secrets.ext.accounts.lookup id).isSome = true) t :=
    Runs.Along.keeps (fun s a t hI hc hstep => hI.step hc.1 hc.2 hstep) has hs.inv hrun
  refine ⟨fun row hrow hkind hnew => hI.signedIn hrow hkind hnew, ?_, hI.ledger.replies⟩
  intro b hb row hrow row' hrow' i j c d hc hd
  obtain rfl := hI.ledger.once i j c d hc.call hd.call (hc.state.trans hd.state.symm)
  obtain ⟨r, hi, hr⟩ := hc.made
  obtain ⟨r', hj, hr'⟩ := hd.made
  rw [hi] at hj
  obtain rfl : r = r' := by simpa using hj
  have hid : row.id = row'.id := hr.symm.trans hr'
  have hlookup := KeyedTable.mem_rows.1 hrow
  rw [hid, KeyedTable.mem_rows.1 hrow'] at hlookup
  exact (Option.some.inj hlookup).symm

instance (lib : OAuthLib) (s : SignIns) (a : SignInAction) : Decidable (s.Fresh lib a) := by
  unfold Fresh
  split <;> infer_instance

instance (lib : OAuthLib) (granted : String → String → Option String) (s : SignIns)
    (a : SignInAction) : Decidable (s.Checked lib granted a) := by
  unfold Checked
  split <;> infer_instance

/-- A challenge that shows its verifier. -/
def plainLib : OAuthLib := ⟨fun _ => none, fun verifier => "S256 " ++ verifier⟩

/-- The owner's code, and one that somebody else has got. -/
def plainGranted (_ code : String) : Option String :=
  if code = "owner" then some "S256 v" else if code = "thief" then some "S256 w" else none

def booted : SignIns := ⟨.fresh, fun _ => none, fun _ => none, fun _ => none, [], []⟩

/-- A sign-in that goes through, after a state that was guessed and before one that is replayed. -/
def ownerSignsIn : List SignInAction :=
  [.registerOAuthProvider "prowl" ⟨"app", none, "https://p/a", "https://p/t", ["read"]⟩,
    .completeOAuth "guess" "thief" none,
    .beginOAuth "prowl" "mine" [] "http://127.0.0.1:0/callback" "state" "v",
    .completeOAuth "state" "owner" none,
    .secrets (.advance 0 ⟨true, "id", some ⟨"token", none, none⟩⟩),
    .secrets (.advance 0 ⟨true, "", none⟩), .secrets (.advance 0 ⟨true, "", none⟩),
    .completeOAuth "state" "thief" none]

theorem signed_in_owner : ∃ t, Runs.run (step plainLib) booted ownerSignsIn = some t
    ∧ t.secrets.ext.accounts.rows.map AccountRow.scopes = [["read"]]
    ∧ (∀ row ∈ t.secrets.ext.accounts.rows, row.authKind = .oauth →
      ¬(booted.secrets.ext.accounts.lookup row.id).isSome →
      ∃ b ∈ t.begun, ∃ i c, SignedIn plainGranted t b row i c)
    ∧ Replies t.begun t.answered := by
  refine ⟨_, rfl, rfl, ?_⟩
  have h := @signed_in plainLib plainGranted booted _ ⟨rfl, rfl, rfl, rfl, rfl⟩ ownerSignsIn
    (by decide) rfl
  exact ⟨h.1, h.2.2⟩

end SignIns

end BuilderPro
