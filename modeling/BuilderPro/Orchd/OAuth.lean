import BuilderPro.Lib.Slots
import BuilderPro.Orchd.SecretOwners

/-!
# Beginning and completing a sign-in

`begin_oauth` draws a state and a verifier and keeps what the sign-in is for under the state.
`complete_oauth` is called with any state and any code: it takes what is kept under the state and
exchanges the code with that sign-in's verifier.  What is kept and exchanged is of a sign-in that has
been begun, and is exchanged once (`SignIns.Ledger`).
-/

namespace BuilderPro

structure OAuthProviderConfig where
  clientId : String
  clientSecret : Option String
  authUrl : String
  tokenUrl : String
  defaultScopes : List String

/-- `PendingOAuth`, with its exchange. -/
structure SignIn extends PendingOAuth where
  redirect : String
  pkceVerifier : String
  deriving DecidableEq

/-- What the authorize URL asks for. -/
structure AuthorizeRequest where
  authUrl : String
  clientId : String
  redirect : String
  scopes : List String
  state : String
  challenge : String

/-- What the token endpoint is asked. -/
structure TokenRequest where
  tokenUrl : String
  clientId : String
  clientSecret : Option String
  redirect : String
  code : String
  pkceVerifier : String

/-- The errors of `ConnectorError` that come before the exchange. -/
inductive SignInError
  | unknownProvider (provider : String)
  | unknownState
  | invalidConfig (message : String)
  | http (message : String)
  deriving DecidableEq

/-- What is used of the `oauth2` crate: why a URL does not parse, if it does not, and the challenge
of a verifier. -/
structure OAuthLib where
  parseError : String → Option String
  s256 : String → String

/-- A call of `complete_oauth` that has taken its entry. -/
structure Completion where
  state : String
  code : String
  signIn : SignIn
  config : OAuthProviderConfig

def Completion.request (c : Completion) : TokenRequest :=
  ⟨c.config.tokenUrl, c.config.clientId, c.config.clientSecret, c.signIn.redirect, c.code,
    c.signIn.pkceVerifier⟩

/-- A call of `begin_oauth` that has gone through. -/
structure Begun where
  signIn : SignIn
  request : AuthorizeRequest

/-- `ConnectorsState`, over the accounts. No step reads the last two. -/
structure SignIns where
  secrets : SecretSys
  providers : String → Option OAuthProviderConfig
  pending : String → Option SignIn
  /-- The call of `complete_oauth` that a task is. -/
  calls : ℕ → Option Completion
  begun : List Begun
  /-- What the calls of `complete_oauth` came to: the task that goes on, or an error. -/
  answered : List (String × Except SignInError ℕ)

def OAuthLib.checkUrl (lib : OAuthLib) (what url : String) : Except SignInError Unit :=
  match lib.parseError url with
  | some e => .error (.invalidConfig (what ++ ": " ++ e))
  | none => .ok ()

/-- `build_client`, of which the errors are left. -/
def buildClient (lib : OAuthLib) (config : OAuthProviderConfig) (redirect : String) :
    Except SignInError Unit := do
  lib.checkUrl "auth_url" config.authUrl
  lib.checkUrl "token_url" config.tokenUrl
  lib.checkUrl "redirect_uri" redirect

inductive SignInAction
  | registerOAuthProvider (provider : String) (config : OAuthProviderConfig)
  | beginOAuth (provider label : String) (scopes : List String) (redirect state verifier : String)
  | completeOAuth (state code : String) (httpError : Option String)
  | secrets (a : SecretAction)

namespace SignIns

variable (lib : OAuthLib) (s : SignIns)

def providerConfig (provider : String) : Except SignInError OAuthProviderConfig :=
  match s.providers provider with
  | some config => .ok config
  | none => .error (.unknownProvider provider)

/-- `begin_oauth`, with the state and the verifier it draws. -/
def beginOAuth (provider label : String) (scopes : List String) (redirect state verifier : String) :
    Except SignInError (SignIns × AuthorizeRequest) := do
  let config ← s.providerConfig provider
  buildClient lib config redirect
  let effectiveScopes := if scopes.isEmpty then config.defaultScopes else scopes
  let signIn : SignIn := ⟨⟨provider, label, effectiveScopes⟩, redirect, verifier⟩
  let request : AuthorizeRequest :=
    ⟨config.authUrl, config.clientId, redirect, effectiveScopes, state, lib.s256 verifier⟩
  return ({ s with
    pending := Function.update s.pending state (some signIn)
    begun := s.begun ++ [⟨signIn, request⟩] }, request)

/-- What `complete_oauth` needs before the exchange. -/
def exchangeConfig (signIn : SignIn) (httpError : Option String) :
    Except SignInError OAuthProviderConfig := do
  let config ← s.providerConfig signIn.provider
  buildClient lib config signIn.redirect
  match httpError with
  | some message => throw (.http message)
  | none => return config

/-- `complete_oauth` up to the exchange: the entry is gone whatever comes of it. -/
def completeOAuth (state code : String) (httpError : Option String) :
    SignIns × Except SignInError ℕ :=
  match s.pending state with
  | none => (s, .error .unknownState)
  | some signIn =>
    let t := { s with pending := Function.update s.pending state none }
    match t.exchangeConfig lib signIn httpError with
    | .error e => (t, .error e)
    | .ok config =>
      let tasks := s.secrets.tasks
      ({ t with
        secrets := { s.secrets with
          tasks := tasks ++ [⟨.completeOAuth signIn.toPendingOAuth, .start⟩] }
        calls := Function.update s.calls tasks.length (some ⟨state, code, signIn, config⟩) },
        .ok tasks.length)

/-- Another step over the accounts. -/
def onSecrets : SecretAction → Option SignIns
  | .request (.completeOAuth _) => none
  | a => (s.secrets.step a).map fun t => { s with secrets := t }

def step (s : SignIns) : SignInAction → Option SignIns
  | .registerOAuthProvider provider config =>
    some { s with providers := Function.update s.providers provider (some config) }
  | .beginOAuth provider label scopes redirect state verifier =>
    match s.beginOAuth lib provider label scopes redirect state verifier with
    | .ok (t, _) => some t
    | .error _ => some s
  | .completeOAuth state code httpError =>
    let (t, r) := s.completeOAuth lib state code httpError
    some { t with answered := t.answered ++ [(state, r)] }
  | .secrets a => s.onSecrets a

/-- Whether a state and a challenge are drawn that nobody has seen yet. -/
def Fresh : SignInAction → Prop
  | .beginOAuth _ _ _ _ state verifier =>
    (∀ b ∈ s.begun, b.request.state ≠ state ∧ b.request.challenge ≠ lib.s256 verifier)
      ∧ ∀ x ∈ s.answered, x.1 ≠ state
  | _ => True

/-- Whether a provider issues tokens only for a verifier whose challenge the code was granted for,
which `granted` says of an endpoint and a code. -/
def Checked (granted : String → String → Option String) : SignInAction → Prop
  | .secrets (.advance i o) => ∀ c ∈ s.calls i, ∀ t ∈ s.secrets.tasks[i]?, t.pc = .start →
    o.answer.isSome → granted c.config.tokenUrl c.code = some (lib.s256 c.signIn.pkceVerifier)
  | _ => True

variable {lib s} {t : SignIns} {provider label redirect state verifier : String}
  {scopes : List String} {request : AuthorizeRequest}

theorem beginOAuth_eq_ok
    (h : s.beginOAuth lib provider label scopes redirect state verifier = .ok (t, request)) :
    ∃ signIn : SignIn, t = { s with
        pending := Function.update s.pending state (some signIn)
        begun := s.begun ++ [⟨signIn, request⟩] }
      ∧ request.state = state ∧ request.challenge = lib.s256 verifier
      ∧ signIn.pkceVerifier = verifier ∧ request.scopes = signIn.scopes
      ∧ request.redirect = signIn.redirect := by
  simp only [beginOAuth, Results.bind_eq_ok, Results.pure_eq_ok, Prod.mk.injEq] at h
  obtain ⟨config, -, -, -, rfl, rfl⟩ := h
  exact ⟨_, rfl, rfl, rfl, rfl, rfl, rfl⟩

theorem checkUrl_ne (what url : String) : lib.checkUrl what url ≠ .error .unknownState := by
  unfold OAuthLib.checkUrl
  split <;> simp

theorem exchangeConfig_ne (signIn : SignIn) (httpError : Option String) :
    s.exchangeConfig lib signIn httpError ≠ .error .unknownState := by
  refine Results.bind_ne_error ?_ fun config => Results.bind_ne_error ?_ fun _ => ?_
  · unfold providerConfig
    split <;> simp
  · exact Results.bind_ne_error (checkUrl_ne _ _) fun _ =>
      Results.bind_ne_error (checkUrl_ne _ _) fun _ => checkUrl_ne _ _
  · cases httpError <;> simp [throw, throwThe, MonadExceptOf.throw, pure, Except.pure]

/-- What becomes of a call, by whether a sign-in is pending under its state. -/
theorem completeOAuth_cases (lib : OAuthLib) (s : SignIns) (state code : String)
    (httpError : Option String) :
    (s.pending state = none ∧ s.completeOAuth lib state code httpError = (s, .error .unknownState))
    ∨ ∃ signIn, s.pending state = some signIn
      ∧ ((∃ e, e ≠ .unknownState ∧ s.completeOAuth lib state code httpError =
          ({ s with pending := Function.update s.pending state none }, .error e))
        ∨ ∃ config, s.completeOAuth lib state code httpError =
          ({ s with
            pending := Function.update s.pending state none
            secrets := { s.secrets with
              tasks := s.secrets.tasks ++ [⟨.completeOAuth signIn.toPendingOAuth, .start⟩] }
            calls := Function.update s.calls s.secrets.tasks.length
              (some ⟨state, code, signIn, config⟩) }, .ok s.secrets.tasks.length)) := by
  unfold completeOAuth
  split
  · exact .inl ⟨‹_›, rfl⟩
  · rename_i signIn hpending
    refine .inr ⟨signIn, hpending, ?_⟩
    dsimp only
    split
    · rename_i e he
      refine .inl ⟨e, ?_, rfl⟩
      rintro rfl
      exact exchangeConfig_ne _ _ he
    · exact .inr ⟨_, rfl⟩

/-- Whether a call is refused just when its state was never drawn or has been presented before. -/
def Replies (begun : List Begun) (answered : List (String × Except SignInError ℕ)) : Prop :=
  ∀ (n : ℕ) (st : String) (r : Except SignInError ℕ), answered[n]? = some (st, r) →
    (r = .error .unknownState ↔
      (∀ b ∈ begun, b.request.state ≠ st) ∨ ∃ m < n, ∃ r', answered[m]? = some (st, r'))

/-- What is begun, pending, taken and answered fits together. -/
structure Ledger (lib : OAuthLib) (s : SignIns) : Prop where
  begun (b : Begun) (h : b ∈ s.begun) : b.request.challenge = lib.s256 b.signIn.pkceVerifier
    ∧ b.request.scopes = b.signIn.scopes ∧ b.request.redirect = b.signIn.redirect
  apart : s.begun.Pairwise fun b b' =>
    b.request.state ≠ b'.request.state ∧ b.request.challenge ≠ b'.request.challenge
  pending (st : String) (q : SignIn) : s.pending st = some q ↔
    (∀ x ∈ s.answered, x.1 ≠ st) ∧ ∃ b ∈ s.begun, b.request.state = st ∧ b.signIn = q
  calls (i : ℕ) (c : Completion) (h : s.calls i = some c) : (∃ x ∈ s.answered, x.1 = c.state)
    ∧ ∃ b ∈ s.begun, b.request.state = c.state ∧ b.signIn = c.signIn
  once (i j : ℕ) (c d : Completion) (hc : s.calls i = some c) (hd : s.calls j = some d)
    (h : c.state = d.state) : i = j
  replies : Replies s.begun s.answered

/-- A daemon that has just started. -/
structure Started (s : SignIns) : Prop where
  pending : s.pending = fun _ => none
  calls : s.calls = fun _ => none
  begun : s.begun = []
  answered : s.answered = []
  tasks : s.secrets.tasks = []

theorem Started.ledger (h : s.Started) : Ledger lib s where
  begun b hb := by simp [h.begun] at hb
  apart := by simp [h.begun]
  pending st q := by simp [h.pending, h.begun]
  calls i c hc := by simp [h.calls] at hc
  once i j c d hc := by simp [h.calls] at hc
  replies n st r hn := by simp [h.answered] at hn

/-- What the bookkeeping says is not about the accounts. -/
theorem Ledger.congr (h : Ledger lib s) (hpending : t.pending = s.pending)
    (hcalls : t.calls = s.calls) (hbegun : t.begun = s.begun)
    (hanswered : t.answered = s.answered) :
    Ledger lib t where
  begun := by rw [hbegun]; exact h.begun
  apart := by rw [hbegun]; exact h.apart
  pending := by rw [hpending, hbegun, hanswered]; exact h.pending
  calls := by rw [hcalls, hbegun, hanswered]; exact h.calls
  once := by rw [hcalls]; exact h.once
  replies := by rw [hbegun, hanswered]; exact h.replies

theorem Ledger.beginOAuth (h : Ledger lib s)
    (hfresh : s.Fresh lib (.beginOAuth provider label scopes redirect state verifier))
    (hstep : s.beginOAuth lib provider label scopes redirect state verifier = .ok (t, request)) :
    Ledger lib t := by
  obtain ⟨signIn, rfl, hstate, hchallenge, hverifier, hscopes, hredirect⟩ := beginOAuth_eq_ok hstep
  obtain ⟨hbegun, hanswered⟩ := hfresh
  refine ⟨?_, ?_, fun st q => ?_, fun i c hc => ?_, h.once, fun n st r hn => ?_⟩
  · intro b hb
    rcases List.mem_append.1 hb with hb | hb
    · exact h.begun b hb
    · rw [List.mem_singleton.1 hb]
      exact ⟨hverifier ▸ hchallenge, hscopes, hredirect⟩
  · refine List.pairwise_append.2 ⟨h.apart, List.pairwise_singleton _ _, ?_⟩
    intro b hb b' hb'
    rw [List.mem_singleton.1 hb', hstate, hchallenge]
    exact hbegun b hb
  · dsimp only
    by_cases hst : st = state
    · subst hst
      rw [Function.update_self]
      constructor
      · intro hq
        obtain rfl := Option.some.inj hq
        exact ⟨hanswered, _, List.mem_append_right _ (List.mem_singleton_self _), hstate, rfl⟩
      · rintro ⟨-, b, hb, hbst, rfl⟩
        rcases List.mem_append.1 hb with hb | hb
        · exact absurd hbst (hbegun b hb).1
        · rw [List.mem_singleton.1 hb]
    · rw [Function.update_of_ne hst, h.pending]
      refine and_congr_right fun _ => ⟨fun ⟨b, hb, hbq⟩ => ⟨b, List.mem_append_left _ hb, hbq⟩, ?_⟩
      rintro ⟨b, hb, hbst, hbq⟩
      rcases List.mem_append.1 hb with hb | hb
      · exact ⟨b, hb, hbst, hbq⟩
      · rw [List.mem_singleton.1 hb, hstate] at hbst
        exact absurd hbst.symm hst
  · obtain ⟨hx, b, hb, hbc⟩ := h.calls i c hc
    exact ⟨hx, b, List.mem_append_left _ hb, hbc⟩
  · have hne : state ≠ st := (hanswered _ (List.mem_of_getElem? hn)).symm
    rw [h.replies n st r hn, List.forall_mem_append, List.forall_mem_singleton, hstate]
    simp only [hne, ne_eq, not_false_eq_true, and_true]

theorem Replies.append {answered : List (String × Except SignInError ℕ)} {begun : List Begun}
    {r : Except SignInError ℕ} (h : Replies begun answered) (hr : r = .error .unknownState ↔
      (∀ b ∈ begun, b.request.state ≠ state) ∨ ∃ x ∈ answered, x.1 = state) :
    Replies begun (answered ++ [(state, r)]) := by
  intro n st r' hn
  by_cases hlt : n < answered.length
  · rw [List.getElem?_append_left hlt] at hn
    rw [h n st r' hn]
    refine or_congr_right (exists_congr fun m => and_congr_right fun hm => ?_)
    rw [List.getElem?_append_left (hm.trans hlt)]
  · obtain ⟨rfl, hlast⟩ : n = answered.length ∧ (state, r) = (st, r') := by
      rw [List.getElem?_append_right (Nat.le_of_not_lt hlt)] at hn
      have hzero : n - answered.length = 0 := by
        by_contra hne
        rw [List.getElem?_eq_none (by simpa using Nat.one_le_iff_ne_zero.2 hne)] at hn
        cases hn
      rw [hzero] at hn
      exact ⟨by omega, Option.some.inj hn⟩
    obtain ⟨rfl, rfl⟩ := Prod.mk.inj hlast
    rw [hr]
    refine or_congr_right ⟨?_, ?_⟩
    · rintro ⟨⟨st, r'⟩, hx, rfl⟩
      obtain ⟨m, hm⟩ := List.mem_iff_getElem?.1 hx
      have hlt := (List.getElem?_eq_some_iff.1 hm).1
      exact ⟨m, hlt, r', by rw [List.getElem?_append_left hlt, hm]⟩
    · rintro ⟨m, hm, r', hx⟩
      rw [List.getElem?_append_left hm] at hx
      exact ⟨_, List.mem_of_getElem? hx, rfl⟩

/-- A call takes what is pending under its state. -/
theorem Ledger.take (h : Ledger lib s) {signIn : SignIn} (hsignIn : s.pending state = some signIn)
    {r : Except SignInError ℕ} (hr : r ≠ .error .unknownState) (k : ℕ)
    (hpending : t.pending = Function.update s.pending state none)
    (hcalls : ∀ i c, t.calls i = some c →
      s.calls i = some c ∨ i = k ∧ c.state = state ∧ c.signIn = signIn)
    (hbegun : t.begun = s.begun) (hanswered : t.answered = s.answered ++ [(state, r)]) :
    Ledger lib t := by
  obtain ⟨hnew, b, hb, hbst, hbq⟩ := (h.pending state signIn).1 hsignIn
  refine ⟨by rw [hbegun]; exact h.begun, by rw [hbegun]; exact h.apart, fun st q => ?_,
    fun i c hc => ?_, fun i j c d hc hd hcd => ?_, ?_⟩
  · rw [hpending, hbegun, hanswered, List.forall_mem_append, List.forall_mem_singleton]
    by_cases hst : st = state
    · subst hst
      simp
    · rw [Function.update_of_ne hst, h.pending]
      simp only [ne_eq, Ne.symm hst, not_false_eq_true, and_true]
  · rw [hbegun, hanswered]
    rcases hcalls i c hc with hc | ⟨-, hstate, rfl⟩
    · obtain ⟨⟨x, hx, hxst⟩, hbc⟩ := h.calls i c hc
      exact ⟨⟨x, List.mem_append_left _ hx, hxst⟩, hbc⟩
    · exact ⟨⟨_, List.mem_append_right _ (List.mem_singleton_self _), hstate.symm⟩,
        b, hb, hbst.trans hstate.symm, hbq⟩
  · rcases hcalls i c hc with hc | ⟨rfl, hcst, -⟩
    · obtain ⟨⟨x, hx, hxst⟩, -⟩ := h.calls i c hc
      rcases hcalls j d hd with hd | ⟨-, hdst, -⟩
      · exact h.once i j c d hc hd hcd
      · exact absurd (hxst.trans (hcd.trans hdst)) (hnew x hx)
    · rcases hcalls j d hd with hd | ⟨rfl, -, -⟩
      · obtain ⟨⟨x, hx, hxst⟩, -⟩ := h.calls j d hd
        exact absurd (hxst.trans (hcd.symm.trans hcst)) (hnew x hx)
      · rfl
  · rw [hbegun, hanswered]
    refine h.replies.append (iff_of_false hr ?_)
    rintro (hnone | ⟨x, hx, hxst⟩)
    · exact hnone b hb hbst
    · exact hnew x hx hxst

/-- A state under which nothing is pending is answered, and nothing else happens. -/
theorem Ledger.refuse (h : Ledger lib s) (hnone : s.pending state = none) :
    Ledger lib { s with answered := s.answered ++ [(state, .error .unknownState)] } := by
  have hseen : (∀ b ∈ s.begun, b.request.state ≠ state) ∨ ∃ x ∈ s.answered, x.1 = state := by
    by_contra hnot
    rw [not_or] at hnot
    simp only [not_forall, not_not, not_exists, not_and] at hnot
    obtain ⟨⟨b, hb, hst⟩, hnew⟩ := hnot
    have hsome := (h.pending state b.signIn).2 ⟨hnew, b, hb, hst, rfl⟩
    rw [hnone] at hsome
    cases hsome
  refine ⟨h.begun, h.apart, fun st q => ?_, fun i c hc => ?_, h.once, ?_⟩
  · dsimp only
    rw [h.pending, List.forall_mem_append, List.forall_mem_singleton]
    constructor
    · rintro ⟨hnew, b, hb, rfl, rfl⟩
      refine ⟨⟨hnew, fun heq => ?_⟩, b, hb, rfl, rfl⟩
      rcases hseen with hseen | ⟨x, hx, hxst⟩
      · exact hseen b hb heq.symm
      · exact hnew x hx (hxst.trans heq)
    · rintro ⟨⟨hnew, -⟩, hbq⟩
      exact ⟨hnew, hbq⟩
  · obtain ⟨⟨x, hx, hxst⟩, hbc⟩ := h.calls i c hc
    exact ⟨⟨x, List.mem_append_left _ hx, hxst⟩, hbc⟩
  · exact h.replies.append (iff_of_true rfl hseen)

theorem Ledger.completeOAuth (h : Ledger lib s) (state code : String) (httpError : Option String) :
    Ledger lib { (s.completeOAuth lib state code httpError).1 with
      answered := (s.completeOAuth lib state code httpError).1.answered
        ++ [(state, (s.completeOAuth lib state code httpError).2)] } := by
  rcases completeOAuth_cases lib s state code httpError with
    ⟨hnone, heq⟩ | ⟨signIn, hsome, ⟨e, he, heq⟩ | ⟨config, heq⟩⟩
  · rw [heq]
    exact h.refuse hnone
  · rw [heq]
    exact h.take hsome (by simpa using he) 0 rfl (fun i c hc => .inl hc) rfl rfl
  · rw [heq]
    refine h.take hsome (by simp) s.secrets.tasks.length rfl (fun i c hc => ?_) rfl rfl
    dsimp only at hc
    rw [Function.update_apply] at hc
    split_ifs at hc with hi
    · obtain rfl := Option.some.inj hc
      exact .inr ⟨hi, rfl, rfl⟩
    · exact .inl hc

end SignIns

end BuilderPro
