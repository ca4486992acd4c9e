import Mathlib.Data.Nat.Basic
import Mathlib.Tactic.Common

/-!
# Connecting at boot and connecting again

`socket_client.rs`: the boot connect makes so many attempts and the reconnect loop makes them until
one decides, and both let the same counter of consecutive transient failures decide.  They tell a
daemon alike (`connectAlike_iff`) unless it comes up while the boot connect is at it and too late for
the counter to reach its cap.
-/

namespace BuilderPro

namespace ConnectRetry

inductive HandshakeError
  | io (message : String)
  | transientHandshake
  | incompatible (min max : ℕ)
  deriving DecidableEq, Repr

def handshakeSuspectCap : ℕ := 8

def bootConnectAttempts : ℕ := 8

/-- What `connect_and_handshake` comes to, attempt after attempt. -/
abbrev Outcomes := ℕ → Except HandshakeError Unit

/-- `UNKNOWN_RANGE`. -/
def unknownRange : HandshakeError := .incompatible 0 0

inductive RetryDecision
  | connected
  | fatal (e : HandshakeError)
  | retry
  deriving DecidableEq, Repr

/-- `HandshakeSuspectCounter::classify`, with the counter before and after. -/
def classify (consecutiveTransient : ℕ) : Except HandshakeError Unit → ℕ × RetryDecision
  | .ok () => (0, .connected)
  | .error (.incompatible min max) => (consecutiveTransient, .fatal (.incompatible min max))
  | .error .transientHandshake =>
    if handshakeSuspectCap ≤ consecutiveTransient + 1 then
      (consecutiveTransient + 1, .fatal unknownRange)
    else (consecutiveTransient + 1, .retry)
  | .error (.io _) => (0, .retry)

/-- What the boot connect answers; a connection is known by the attempt it comes from. -/
inductive ConnectResult
  | connected (attempt : ℕ)
  | incompatibleDaemon (daemonMin daemonMax : ℕ)
  | disconnected
  | unreachable
  deriving DecidableEq, Repr

section Loops

variable (outcomes : Outcomes)

/-- The loop of `connect_at_with_retry`: the attempts made, and the answer. -/
def bootLoop : (left n counter : ℕ) → ℕ × ConnectResult
  | 0, n, _ => (n, .disconnected)
  | left + 1, n, counter =>
    match classify counter (outcomes n) with
    | (_, .connected) => (n + 1, .connected n)
    | (_, .fatal (.incompatible min max)) => (n + 1, .incompatibleDaemon min max)
    | (_, .fatal _) => (n + 1, .unreachable)
    | (counter, .retry) => bootLoop left (n + 1) counter

def connectAtWithRetry (attempts : ℕ) : ℕ × ConnectResult :=
  bootLoop outcomes (max attempts 1) 0 0

def connectWithRetry (attempts : ℕ) : ℕ × ConnectResult :=
  connectAtWithRetry outcomes (max attempts handshakeSuspectCap)

/-- The loop of `connect_with_backoff`, if it is over by so many attempts. -/
def backoffLoop : (fuel n counter : ℕ) → Option (ℕ × Except HandshakeError ℕ)
  | 0, _, _ => none
  | fuel + 1, n, counter =>
    match classify counter (outcomes n) with
    | (_, .connected) => some (n + 1, .ok n)
    | (_, .fatal e) => some (n + 1, .error e)
    | (counter, .retry) => backoffLoop fuel (n + 1) counter

/-- What the reconnect loop returns is told to the client. -/
def ConnectResult.ofReconnect : Except HandshakeError ℕ → ConnectResult
  | .ok n => .connected n
  | .error (.incompatible min max) => .incompatibleDaemon min max
  | .error _ => .unreachable

/-- The reconnect loop returns after so many attempts. -/
def Reconnects (made : ℕ) (r : ConnectResult) : Prop :=
  ∃ fuel x, backoffLoop outcomes fuel 0 0 = some (made, x) ∧ ConnectResult.ofReconnect x = r

/-! ### What they are for -/

/-- An answer after so many attempts: a connection is that of an accepted attempt and no accepted
attempt is passed over, and a daemon is told incompatible with the range it replied or, with none,
after so many transient failures in a row. -/
structure Honest (made : ℕ) (r : ConnectResult) : Prop where
  accepted : ∀ n, r = .connected n → outcomes n = .ok ()
  skipsNone : ∀ n < made, outcomes n = .ok () → r = .connected n
  incompatible : ∀ min max, r = .incompatibleDaemon min max →
    (∃ n < made, outcomes n = .error (.incompatible min max)) ∨
      min = 0 ∧ max = 0 ∧ handshakeSuspectCap ≤ made ∧
        ∀ n, made - handshakeSuspectCap ≤ n → n < made → outcomes n = .error .transientHandshake
  reachable : r ≠ .unreachable

/-- Nothing listens for so many attempts, and then a daemon that never completes a handshake. -/
def StaleDaemon (refused : ℕ) : Prop :=
  (∀ n < refused, ∃ m, outcomes n = .error (.io m)) ∧
    ∀ n, refused ≤ n → outcomes n = .error .transientHandshake

/-- Both tell a daemon by the same rules, and a stale one that either reaches as incompatible. -/
structure ConnectAlike (attempts : ℕ) : Prop where
  boot : Honest outcomes (connectWithRetry outcomes attempts).1
    (connectWithRetry outcomes attempts).2
  reconnect : ∀ made r, Reconnects outcomes made r → Honest outcomes made r
  stale : ∀ refused, StaleDaemon outcomes refused →
    (∃ n < (connectWithRetry outcomes attempts).1, ∀ m, outcomes n ≠ .error (.io m)) →
      (connectWithRetry outcomes attempts).2 = .incompatibleDaemon 0 0 ∧
        ∃ made, Reconnects outcomes made (.incompatibleDaemon 0 0)

end Loops

/-! ### The counter -/

variable {outcomes : Outcomes} {fuel n counter made attempts refused : ℕ}
  {x : Except HandshakeError ℕ}

/-- The attempts before one: none was accepted, and the last of them are the transient failures
counted, fewer than the cap. -/
structure Counted (outcomes : Outcomes) (n counter : ℕ) : Prop where
  below : counter < handshakeSuspectCap
  le : counter ≤ n
  transient : ∀ j, n - counter ≤ j → j < n → outcomes j = .error .transientHandshake
  notAccepted : ∀ j < n, outcomes j ≠ .ok ()

theorem counted_zero : Counted outcomes 0 0 := by
  refine ⟨by decide, le_rfl, fun j _ hj => by omega, fun j hj => by omega⟩

/-- After a refused connection nothing is counted. -/
theorem Counted.io (h : Counted outcomes n counter) {m : String}
    (ho : outcomes n = .error (.io m)) : Counted outcomes (n + 1) 0 := by
  refine ⟨by decide, Nat.zero_le _, fun j hj hj' => by omega, fun j hj => ?_⟩
  rcases Nat.lt_succ_iff_lt_or_eq.1 hj with hlt | rfl
  · exact h.notAccepted j hlt
  · simp [ho]

/-- A transient failure is one more in the row. -/
theorem Counted.inRow (h : Counted outcomes n counter)
    (ho : outcomes n = .error .transientHandshake) :
    ∀ j, n + 1 - (counter + 1) ≤ j → j < n + 1 → outcomes j = .error .transientHandshake := by
  intro j hj hj'
  rcases Nat.lt_succ_iff_lt_or_eq.1 hj' with hlt | rfl
  · exact h.transient j (by omega) hlt
  · exact ho

theorem Counted.suspect (h : Counted outcomes n counter)
    (ho : outcomes n = .error .transientHandshake) (hcap : ¬handshakeSuspectCap ≤ counter + 1) :
    Counted outcomes (n + 1) (counter + 1) := by
  have hle := h.le
  refine ⟨by omega, by omega, h.inRow ho, fun j hj => ?_⟩
  rcases Nat.lt_succ_iff_lt_or_eq.1 hj with hlt | rfl
  · exact h.notAccepted j hlt
  · simp [ho]

theorem Counted.ne_ok (h : Counted outcomes n counter) {e : HandshakeError}
    (ho : outcomes n = .error e) : ∀ j < n + 1, outcomes j ≠ .ok () := by
  intro j hj
  rcases Nat.lt_succ_iff_lt_or_eq.1 hj with hlt | rfl
  · exact h.notAccepted j hlt
  · simp [ho]

/-! ### The loops -/

/-- The boot connect is the reconnect loop, given up after its attempts. -/
theorem bootLoop_eq : bootLoop outcomes fuel n counter =
    (backoffLoop outcomes fuel n counter).elim (n + fuel, .disconnected)
      fun x => (x.1, .ofReconnect x.2) := by
  induction fuel generalizing n counter with
  | zero => rfl
  | succ fuel ih =>
    unfold bootLoop backoffLoop
    rcases classify counter (outcomes n) with ⟨c, - | e | -⟩
    · rfl
    · rcases e with m | - | ⟨min, max⟩ <;> rfl
    · simp only [ih, Nat.add_right_comm n 1 fuel, Nat.add_assoc]

/-- The loop gives up on what has told it enough, and never on anything else. -/
theorem honest_of_backoffLoop (h : Counted outcomes n counter)
    (hloop : backoffLoop outcomes fuel n counter = some (made, x)) :
    Honest outcomes made (.ofReconnect x) := by
  induction fuel generalizing n counter with
  | zero => simp [backoffLoop] at hloop
  | succ fuel ih =>
    have hle := h.le
    have hbelow := h.below
    unfold backoffLoop at hloop
    rcases ho : outcomes n with (m | - | ⟨min, max⟩) | u
    · rw [ho] at hloop
      exact ih (h.io ho) hloop
    · rw [ho] at hloop
      by_cases hcap : handshakeSuspectCap ≤ counter + 1
      · simp only [classify, if_pos hcap, Option.some.injEq, Prod.mk.injEq] at hloop
        obtain ⟨rfl, rfl⟩ := hloop
        have hall := h.inRow ho
        have hcount : counter + 1 = handshakeSuspectCap := by omega
        rw [hcount] at hall
        refine ⟨fun k hk => ConnectResult.noConfusion hk, fun k hk hok => absurd hok (h.ne_ok ho k hk),
          fun min max hr => ?_, by simp [ConnectResult.ofReconnect, unknownRange]⟩
        obtain ⟨rfl, rfl⟩ := ConnectResult.incompatibleDaemon.inj hr
        exact .inr ⟨rfl, rfl, by omega, hall⟩
      · simp only [classify, if_neg hcap] at hloop
        exact ih (h.suspect ho hcap) hloop
    · rw [ho] at hloop
      simp only [classify, Option.some.injEq, Prod.mk.injEq] at hloop
      obtain ⟨rfl, rfl⟩ := hloop
      refine ⟨fun k hk => ConnectResult.noConfusion hk, fun k hk hok => absurd hok (h.ne_ok ho k hk),
        fun a b hr => .inl ⟨n, by omega, ?_⟩, by simp [ConnectResult.ofReconnect]⟩
      obtain ⟨rfl, rfl⟩ := ConnectResult.incompatibleDaemon.inj hr
      exact ho
    · rw [ho] at hloop
      simp only [classify, Option.some.injEq, Prod.mk.injEq] at hloop
      obtain ⟨rfl, rfl⟩ := hloop
      refine ⟨fun k hk => ?_, fun k hk hok => ?_, fun a b hr => ConnectResult.noConfusion hr,
        by simp [ConnectResult.ofReconnect]⟩
      · obtain rfl := ConnectResult.connected.inj hk
        exact ho
      · rcases Nat.lt_succ_iff_lt_or_eq.1 hk with hlt | rfl
        · exact absurd hok (h.notAccepted k hlt)
        · rfl

/-- While the loop goes on nothing is accepted. -/
theorem ne_ok_of_backoffLoop (h : Counted outcomes n counter)
    (hloop : backoffLoop outcomes fuel n counter = none) :
    ∀ j < n + fuel, outcomes j ≠ .ok () := by
  induction fuel generalizing n counter with
  | zero => exact h.notAccepted
  | succ fuel ih =>
    have hnext : n + (fuel + 1) = n + 1 + fuel := by omega
    rw [hnext]
    unfold backoffLoop at hloop
    rcases ho : outcomes n with (m | - | ⟨min, max⟩) | u
    · rw [ho] at hloop
      exact ih (h.io ho) hloop
    · rw [ho] at hloop
      by_cases hcap : handshakeSuspectCap ≤ counter + 1
      · simp [classify, hcap] at hloop
      · simp only [classify, if_neg hcap] at hloop
        exact ih (h.suspect ho hcap) hloop
    · simp [ho, classify] at hloop
    · simp [ho, classify] at hloop

theorem honest_boot :
    Honest outcomes (bootLoop outcomes fuel 0 0).1 (bootLoop outcomes fuel 0 0).2 := by
  rw [bootLoop_eq]
  rcases hloop : backoffLoop outcomes fuel 0 0 with _ | ⟨made, x⟩
  · have hnone := ne_ok_of_backoffLoop counted_zero hloop
    exact ⟨fun n hn => ConnectResult.noConfusion hn, fun n hn hok => absurd hok (hnone n hn),
      fun a b hr => ConnectResult.noConfusion hr, fun hr => ConnectResult.noConfusion hr⟩
  · exact honest_of_backoffLoop counted_zero hloop

/-- Of a stale daemon's attempts, the cap of the transient failures decides. -/
theorem backoffLoop_stale (h : StaleDaemon outcomes refused)
    (hn : n < refused + handshakeSuspectCap) :
    backoffLoop outcomes fuel n (n - refused) =
      if refused + handshakeSuspectCap ≤ n + fuel then
        some (refused + handshakeSuspectCap, .error unknownRange)
      else none := by
  induction fuel generalizing n with
  | zero =>
    have hearly : ¬refused + handshakeSuspectCap ≤ n + 0 := by omega
    rw [backoffLoop, if_neg hearly]
  | succ fuel ih =>
    have hnext : n + (fuel + 1) = n + 1 + fuel := by omega
    rw [hnext, backoffLoop]
    rcases Nat.lt_or_ge n refused with hlt | hge
    · obtain ⟨m, hm⟩ := h.1 n hlt
      have hpos : 0 < handshakeSuspectCap := by decide
      have hzero : n + 1 - refused = 0 := by omega
      have hrest := ih (n := n + 1) (by omega)
      rw [hzero] at hrest
      simp only [hm, classify]
      exact hrest
    · have hcount : n - refused + 1 = n + 1 - refused := by omega
      simp only [h.2 n hge, classify, hcount]
      by_cases hcap : handshakeSuspectCap ≤ n + 1 - refused
      · have hend : n + 1 = refused + handshakeSuspectCap := by omega
        rw [if_pos hcap, if_pos (by omega), hend]
      · rw [if_neg hcap]
        exact ih (by omega)

theorem bootLoop_stale (h : StaleDaemon outcomes refused) : bootLoop outcomes fuel 0 0 =
    if refused + handshakeSuspectCap ≤ fuel then
      (refused + handshakeSuspectCap, .incompatibleDaemon 0 0)
    else (fuel, .disconnected) := by
  have hcap : (0 : ℕ) < refused + handshakeSuspectCap := by
    unfold handshakeSuspectCap
    omega
  have hloop : backoffLoop outcomes fuel 0 (0 - refused) =
      if refused + handshakeSuspectCap ≤ 0 + fuel then
        some (refused + handshakeSuspectCap, .error unknownRange)
      else none := backoffLoop_stale h hcap
  rw [Nat.zero_sub, Nat.zero_add] at hloop
  rw [bootLoop_eq, hloop]
  split_ifs
  · rfl
  · simp

theorem reconnects_stale (h : StaleDaemon outcomes refused) :
    Reconnects outcomes (refused + handshakeSuspectCap) (.incompatibleDaemon 0 0) := by
  have hcap : (0 : ℕ) < refused + handshakeSuspectCap := by
    unfold handshakeSuspectCap
    omega
  have hloop : backoffLoop outcomes (refused + handshakeSuspectCap) 0 (0 - refused) =
      some (refused + handshakeSuspectCap, .error unknownRange) := by
    rw [backoffLoop_stale h hcap, if_pos (by omega)]
  rw [Nat.zero_sub] at hloop
  exact ⟨_, _, hloop, rfl⟩

theorem connectWithRetry_eq : connectWithRetry outcomes attempts =
    bootLoop outcomes (max attempts handshakeSuspectCap) 0 0 := by
  have hmax : max (max attempts handshakeSuspectCap) 1 = max attempts handshakeSuspectCap := by
    unfold handshakeSuspectCap
    omega
  rw [connectWithRetry, connectAtWithRetry, hmax]

/-- A stale daemon is told by both exactly if it does not come up while the boot connect has fewer
attempts left than it takes to tell it. -/
theorem connectAlike_iff (outcomes : Outcomes) (attempts : ℕ) : ConnectAlike outcomes attempts ↔
    ∀ refused, StaleDaemon outcomes refused → refused < max attempts handshakeSuspectCap →
      refused + handshakeSuspectCap ≤ max attempts handshakeSuspectCap := by
  constructor
  · intro h refused hstale hreached
    by_contra hlate
    have hboot := h.stale refused hstale
    rw [connectWithRetry_eq, bootLoop_stale hstale, if_neg hlate] at hboot
    have htransient := hstale.2 refused le_rfl
    have hanswer := (hboot ⟨refused, hreached, by simp [htransient]⟩).1
    cases hanswer
  · intro h
    refine ⟨?_, ?_, fun refused hstale hreached => ?_⟩
    · rw [connectWithRetry_eq]
      exact honest_boot
    · rintro made r ⟨fuel, x, hloop, rfl⟩
      exact honest_of_backoffLoop counted_zero hloop
    · rw [connectWithRetry_eq, bootLoop_stale hstale] at hreached ⊢
      have htold : refused + handshakeSuspectCap ≤ max attempts handshakeSuspectCap := by
        by_contra hlate
        rw [if_neg hlate] at hreached
        obtain ⟨n, hn, hm⟩ := hreached
        refine hlate (h refused hstale ?_)
        by_contra hnever
        obtain ⟨m, hrefused⟩ := hstale.1 n (by omega)
        exact hm m hrefused
      rw [if_pos htold]
      exact ⟨rfl, _, reconnects_stale hstale⟩

/-- A daemon that is up after the first attempt and never completes a handshake. -/
def staleAfterOne : Outcomes
  | 0 => .error (.io "Connection refused")
  | _ + 1 => .error .transientHandshake

theorem staleAfterOne_not_connectAlike : ¬ConnectAlike staleAfterOne bootConnectAttempts := by
  intro h
  have hstale : StaleDaemon staleAfterOne 1 := by
    constructor
    · intro n hn
      obtain rfl : n = 0 := by omega
      exact ⟨_, rfl⟩
    · intro n hn
      obtain ⟨k, rfl⟩ : ∃ k, n = k + 1 := ⟨n - 1, by omega⟩
      rfl
  have hboot := (h.stale 1 hstale ⟨1, by decide, by simp [staleAfterOne]⟩).1
  have hdisconnected : (connectWithRetry staleAfterOne bootConnectAttempts).2 = .disconnected := by
    decide
  rw [hdisconnected] at hboot
  cases hboot

end ConnectRetry

end BuilderPro
