import BuilderPro.Lib.Retry
import BuilderPro.Orchd.CallSteps

/-!
# The network phase of a tool call

`mcp/invoke.rs` between its two locks: one connect, and attempts at the call itself, of which
`is_retryable` decides whether there is another.  The classification does not tell a transport
error or a timeout before the request was delivered from one after it, so a call that may have run
is sent again unless the retries are used up (`at_most_once_iff`).
-/

namespace BuilderPro

/-- What is kept of a tool's answer. -/
structure ToolResult where
  isError : Bool
  costUsd : Option F64
  inputTokens : Option ℤ
  outputTokens : Option ℤ
  deriving DecidableEq

/-- How an attempt at `tools/call` ends. -/
inductive RpcOutcome
  | success (result : ToolResult)
  | toolError
  | protocol
  | auth
  /-- A transport error before the request reached the server. -/
  | undelivered
  /-- A transport error that the request may have reached the server before. -/
  | lost
  | timedOut
  /-- The call's own timer has run out. -/
  | elapsed
  deriving DecidableEq

namespace RpcOutcome

def result : RpcOutcome → Except McpError ToolResult
  | success r => .ok r
  | toolError => .error .toolError
  | protocol => .error .protocol
  | auth => .error .auth
  | undelivered => .error .transport
  | lost => .error .transport
  | timedOut => .error .timeout
  | elapsed => .error .timeout

/-- Whether the server may have run the call. -/
def mayHaveRun : RpcOutcome → Bool
  | undelivered => false
  | _ => true

end RpcOutcome

def McpError.isRetryable : McpError → Bool
  | .transport => true
  | .timeout => true
  | _ => false

/-- `classify_error_kind` of an attempt, and whether it has gone well. -/
def RpcOutcome.recorded (o : RpcOutcome) : Bool × Option String :=
  match o.result with
  | .ok _ => (true, none)
  | .error e => (false, some e.kind)

/-- The retry loop, with some retries left: the attempts it makes and what it breaks with. -/
def callLoop (rpc : ℕ → RpcOutcome) : (left n : ℕ) → List RpcOutcome × Except McpError ToolResult
  | 0, n => ([rpc n], (rpc n).result)
  | left + 1, n =>
    match (rpc n).result with
    | .ok r => ([rpc n], .ok r)
    | .error e =>
      if e.isRetryable then
        let (sent, r) := callLoop rpc left (n + 1)
        (rpc n :: sent, r)
      else ([rpc n], .error e)

/-- What the network does to a call: how the connect ends, if its timer has not run out, and how
each attempt would. -/
structure CallNetwork where
  connect : Option (Except McpError Unit)
  rpc : ℕ → RpcOutcome
  latencyMs : ℤ

/-- `max_retries.max(0) as u32`. -/
def retryBound (maxRetries : ℤ) : ℕ := maxRetries.toNat % 2 ^ 32

namespace CallNetwork

variable (net : CallNetwork)

def phaseTwo (maxRetries : ℤ) : List RpcOutcome × Except McpError ToolResult :=
  match net.connect with
  | none => ([], .error .timeout)
  | some (.error e) => ([], .error e)
  | some (.ok ()) => callLoop net.rpc (retryBound maxRetries) 0

def answer (id artifactId : String) (r : Except McpError ToolResult) : CallAnswer :=
  match r with
  | .ok r => ⟨id, artifactId, net.latencyMs, r.costUsd, r.inputTokens, r.outputTokens, none⟩
  | .error e => ⟨id, artifactId, net.latencyMs, none, none, none, some (.mcp e)⟩

end CallNetwork
/-- Whether a call that may have run is not sent again. -/
structure AtMostOnce (sent : List RpcOutcome) : Prop where
  notAgain : ∀ o ∈ sent.dropLast, o.mayHaveRun = false
  length_le : sent.length ≤ 1 + sent.countP fun o => !o.mayHaveRun

def Records (e e' : ExtStore) (o : RpcOutcome) : Prop :=
  ∃ x, e'.invocations.rows = e.invocations.rows ++ [x] ∧ (x.ok, x.errorKind) = o.recorded

/-- Whether the first attempt that may have run the call ends well or for good, or has no retry
left. -/
def SafelyRetried (rpc : ℕ → RpcOutcome) (retries : ℕ) : Prop :=
  ∀ k < retries, (∀ j < k, (rpc j).mayHaveRun = false) → rpc k ≠ .lost ∧ rpc k ≠ .timedOut
    ∧ rpc k ≠ .elapsed

namespace RpcOutcome

def again (o : RpcOutcome) : Bool :=
  match o.result with
  | .ok _ => false
  | .error e => e.isRetryable

theorem again_of_not_mayHaveRun {o : RpcOutcome} (h : o.mayHaveRun = false) : o.again = true := by
  cases o <;> first | rfl | cases h

/-- What the loop takes for one more try although the server may have run the call. -/
theorem again_eq_false_iff {o : RpcOutcome} (h : o.mayHaveRun = true) :
    o.again = false ↔ o ≠ .lost ∧ o ≠ .timedOut ∧ o ≠ .elapsed := by
  cases o <;> simp [again, result, McpError.isRetryable, mayHaveRun] at h ⊢

end RpcOutcome

/-- The attempts of the loop, and the result of the last of them. -/
theorem callLoop_eq (rpc : ℕ → RpcOutcome) (left n : ℕ) :
    (callLoop rpc left n).1 = Retry.attempts RpcOutcome.again rpc left n ∧
      ∃ last, (callLoop rpc left n).1.getLast? = some last
        ∧ (callLoop rpc left n).2 = last.result := by
  induction left generalizing n with
  | zero => exact ⟨rfl, rpc n, rfl, rfl⟩
  | succ left ih =>
    obtain ⟨hsent, last, hlast, hr⟩ := ih (n + 1)
    unfold callLoop Retry.attempts RpcOutcome.again
    rcases h : (rpc n).result with e | r
    · by_cases he : e.isRetryable = true
      · simp only [he, if_true]
        refine ⟨by rw [hsent]; rfl, last, ?_, hr⟩
        rw [List.getLast?_cons, hlast]
        rfl
      · simp only [he, if_false, Bool.false_eq_true]
        exact ⟨trivial, rpc n, rfl, h.symm⟩
    · exact ⟨rfl, rpc n, rfl, h.symm⟩

theorem AtMostOnce.of_notAgain {sent : List RpcOutcome}
    (h : ∀ o ∈ sent.dropLast, o.mayHaveRun = false) : AtMostOnce sent := by
  refine ⟨h, ?_⟩
  have hcount : sent.dropLast.countP (fun o => !o.mayHaveRun) = sent.dropLast.length :=
    List.countP_eq_length.2 fun o ho => by simp [h o ho]
  have hle := List.Sublist.countP_le (p := fun o => !o.mayHaveRun) (List.dropLast_sublist sent)
  rw [hcount, List.length_dropLast] at hle
  omega

theorem atMostOnce_iff (rpc : ℕ → RpcOutcome) (retries : ℕ) :
    AtMostOnce (callLoop rpc retries 0).1 ↔ SafelyRetried rpc retries := by
  have hmade := @Retry.dropLast_attempts_none_iff _ RpcOutcome.again rpc retries 0
    RpcOutcome.mayHaveRun fun o => RpcOutcome.again_of_not_mayHaveRun
  rw [← (callLoop_eq rpc retries 0).1] at hmade
  simp only [Nat.zero_add] at hmade
  constructor
  · intro h k hk hbefore
    by_cases hrun : (rpc k).mayHaveRun = true
    · exact (RpcOutcome.again_eq_false_iff hrun).1 (hmade.1 h.notAgain k hk hbefore hrun)
    · refine ⟨?_, ?_, ?_⟩ <;> intro heq <;> simp [heq, RpcOutcome.mayHaveRun] at hrun
  · intro h
    exact .of_notAgain (hmade.2 fun k hk hbefore hrun =>
      (RpcOutcome.again_eq_false_iff hrun).2 (h k hk hbefore))

/-! ### The row -/

theorem answer_recorded (net : CallNetwork) (id artifactId : String) {o : RpcOutcome}
    {r : Except McpError ToolResult} (hr : r = o.result) :
    ((net.answer id artifactId r).error.isNone,
      (net.answer id artifactId r).error.map OrchdMcpError.runKind) = o.recorded := by
  subst hr
  unfold CallNetwork.answer RpcOutcome.recorded
  split <;> rfl

namespace ExtStore

variable {e : ExtStore} {x : McpInvocation}

theorem insertInvocation_server {serverId : String} (hserver : x.serverId = some serverId)
    (haccount : x.accountId = none) (hid : e.invocations.lookup x.id = none) :
    (∃ e', e.insertInvocation x = .ok e') ↔ (e.servers.lookup serverId).isSome := by
  obtain ⟨t, ht⟩ := KeyedTable.exists_insert hid
  unfold insertInvocation
  rw [hserver, haccount, ht]
  rcases h : e.servers.lookup serverId <;> simp [h]

end ExtStore

namespace ExtSys

variable {host : ExtHost} {s : ExtSys} {i : ℕ} {t : Task} {c : ToolCall} {startedAt : ℤ}

theorem answer_call (host : ExtHost) (ht : s.tasks[i]? = some t) (hjob : t.job.toolCall? = some c)
    (hpc : t.pc = .dialing) (hstart : t.startedAt = some startedAt) (a : CallAnswer) :
    ∃ x s', x.serverId = some c.serverId ∧ x.accountId = none ∧ x.id = a.id
      ∧ (x.ok, x.errorKind) = (a.error.isNone, a.error.map OrchdMcpError.runKind)
      ∧ s.answer host i (.call a) = some s'
      ∧ s'.ext = (s.ext.insertInvocation x).toOption.getD s.ext := by
  obtain ⟨x, hx, hserver, haccount, hid, hrec⟩ : ∃ x, t.job.invocation host startedAt a = some x
      ∧ x.serverId = some c.serverId ∧ x.accountId = none ∧ x.id = a.id
      ∧ (x.ok, x.errorKind) = (a.error.isNone, a.error.map OrchdMcpError.runKind) := by
    rcases hj : t.job with d | d | ⟨r, d⟩ | d <;> rw [hj] at hjob <;> cases hjob <;>
      exact ⟨_, rfl, rfl, rfl, rfl, rfl⟩
  obtain ⟨job, pc, guard, under, started⟩ := t
  subst hpc hstart
  have hanswer : ∃ s', s.answer host i (.call a) = some s'
      ∧ s'.ext = (s.ext.insertInvocation x).toOption.getD s.ext := by
    unfold ExtSys.answer
    rw [ht]
    rcases job with d | d | ⟨r, d⟩ | d <;> cases hjob <;>
      simp only [Option.bind_eq_bind, Option.bind_some, hx] <;>
      rcases s.ext.insertInvocation x with e | e <;> exact ⟨_, rfl, rfl⟩
  obtain ⟨s', hs, hext⟩ := hanswer
  exact ⟨x, s', hserver, haccount, hid, hrec, hs, hext⟩

/-- A call with a session sends nothing again that may have run, and its row says what the last
attempt came to, exactly if the first attempt that may have run it is not followed by a retry and
its server is still there to have a row. -/
theorem at_most_once_iff {net : CallNetwork} {id artifactId : String} {maxRetries : ℤ}
    (ht : s.tasks[i]? = some t) (hjob : t.job.toolCall? = some c) (hpc : t.pc = .dialing)
    (hstart : t.startedAt = some startedAt) (hconnect : net.connect = some (.ok ()))
    (hid : s.ext.invocations.lookup id = none) :
    (AtMostOnce (net.phaseTwo maxRetries).1 ∧ ∃ s' last,
        s.answer host i (.call (net.answer id artifactId (net.phaseTwo maxRetries).2)) = some s'
          ∧ (net.phaseTwo maxRetries).1.getLast? = some last ∧ Records s.ext s'.ext last) ↔
      SafelyRetried net.rpc (retryBound maxRetries) ∧ (s.ext.servers.lookup c.serverId).isSome := by
  have hphase : net.phaseTwo maxRetries = callLoop net.rpc (retryBound maxRetries) 0 := by
    unfold CallNetwork.phaseTwo
    rw [hconnect]
  obtain ⟨-, last, hlast, hr⟩ := callLoop_eq net.rpc (retryBound maxRetries) 0
  rw [hphase, atMostOnce_iff, hlast]
  refine and_congr_right fun _ => ?_
  obtain ⟨x, s', hserver, haccount, hxid, hrec, hanswer, hext⟩ := answer_call host ht hjob hpc
    hstart (net.answer id artifactId (callLoop net.rpc (retryBound maxRetries) 0).2)
  have hnew : x.id = id := by
    rw [hxid]
    unfold CallNetwork.answer
    split <;> rfl
  rw [hanswer, ← ExtStore.insertInvocation_server hserver haccount (by rwa [hnew])]
  constructor
  · rintro ⟨s'', last', hs, -, y, hrows, -⟩
    cases hs
    rcases he : s.ext.insertInvocation x with error | e
    · rw [hext, he] at hrows
      simpa [Except.toOption] using congrArg List.length hrows
    · exact ⟨e, rfl⟩
  · rintro ⟨e, he⟩
    refine ⟨s', last, rfl, rfl, x, ?_, ?_⟩
    · obtain ⟨u, hu, rfl⟩ := ExtStore.insertInvocation_eq_ok he
      rw [hext, he]
      exact (KeyedTable.insert_eq_some.1 hu).2
    · rw [hrec, answer_recorded net id artifactId hr]

/-! ### A slow server -/

/-- A network on which every attempt ends in one way up to some attempt, and well from there. -/
def failsUntil (n : ℕ) (o : RpcOutcome) : CallNetwork :=
  ⟨some (.ok ()), fun k => if k < n then o else .success ⟨false, none, none, none⟩, 0⟩

/-- The server answers the first attempt when its timer has run out. -/
theorem slow_call_sent_twice :
    ((failsUntil 1 .elapsed).phaseTwo 1).1 = [.elapsed, .success ⟨false, none, none, none⟩]
      ∧ ¬AtMostOnce ((failsUntil 1 .elapsed).phaseTwo 1).1 :=
  ⟨by decide, fun h => absurd (h.notAgain .elapsed (by decide)) (by decide)⟩

def dialingCall : ExtSys where
  ext := { ExtStore.empty with servers := ⟨[⟨⟨"search", .http, some "http://localhost:1", none, [],
    .empty, .global, none, .none, none, none, true, 30000, 2⟩, "s", none, 0, 0⟩], by simp⟩ }
  secrets _ := .error ""
  binary _ := none
  clock := 0
  tasks := [⟨.call ⟨"s", "wipe", "\x7b\x7d", none⟩, .dialing, none, none, some 0⟩]
  dials := []
  secretsRead := []

theorem at_most_once_iff_undelivered : ∃ s' last,
    dialingCall.answer plainExtHost 0 (.call ((failsUntil 2 .undelivered).answer "i" "a"
        ((failsUntil 2 .undelivered).phaseTwo 2).2)) = some s'
      ∧ ((failsUntil 2 .undelivered).phaseTwo 2).1.getLast? = some last
      ∧ Records dialingCall.ext s'.ext last := by
  refine ((@at_most_once_iff plainExtHost dialingCall 0 _ _ _ _ "i" "a" 2 rfl rfl rfl rfl rfl
    rfl).2 ⟨?_, rfl⟩).2
  intro k hk hbefore
  have hrpc : (failsUntil 2 .undelivered).rpc k = .undelivered := if_pos hk
  simp [hrpc]

end ExtSys

end BuilderPro
