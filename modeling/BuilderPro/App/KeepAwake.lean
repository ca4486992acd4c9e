import Mathlib.Data.List.Basic
import BuilderPro.Lib.Runs
import BuilderPro.Lib.Slots

/-!
# The keep-awake pill

`power.rs` holds a sleep assertion while the toggle is on and a session is open, and answers each
command with what it has come to; `store.ts` shows the answers as they arrive.  The pill tells the
truth in every run in which no command is overtaken by one of its kind, no answer by the newest one,
and none is lost that is still needed (`tellsTruth_of_orderly`).
-/

namespace BuilderPro

namespace KeepAwake

/-! ### The core -/

structure KeepAwakeState where
  enabled : Bool
  liveSessions : ℕ
  deriving DecidableEq, Repr

/-- The toggle is on and a session is open. -/
def KeepAwakeState.want (s : KeepAwakeState) : Bool := s.enabled && decide (0 < s.liveSessions)

/-- Whether the assertion is held afterwards, and the reason the system gives for a denial, which it
may give when the assertion is acquired. -/
def KeepAwakeState.reconcile (s : KeepAwakeState) (denial : Option String) (held : Bool) :
    Bool × Option String :=
  if s.want && !held then (denial.isNone, denial)
  else if !s.want && held then (false, none)
  else (held, none)

structure PowerStatus where
  enabled : Bool
  active : Bool
  error : Option String
  deriving DecidableEq, Repr

/-- `KeepAwake`, with whether its asserter holds the assertion. -/
structure Core where
  state : KeepAwakeState
  held : Bool
  lastError : Option String
  deriving DecidableEq, Repr

inductive PowerCommand
  | setEnabled (enabled : Bool)
  | syncSessions (live : ℕ)
  deriving DecidableEq, Repr

def PowerCommand.enabled? : PowerCommand → Option Bool
  | .setEnabled enabled => some enabled
  | .syncSessions _ => none

def PowerCommand.live? : PowerCommand → Option ℕ
  | .setEnabled _ => none
  | .syncSessions live => some live

/-- The name of the store's operation, in its reports. -/
def PowerCommand.op : PowerCommand → String
  | .setEnabled _ => "setKeepAwakeEnabled"
  | .syncSessions _ => "syncKeepAwake"

namespace Core

variable (k : Core) (denial : Option String)

def new : Core := ⟨⟨true, 0⟩, false, none⟩

def status : PowerStatus := ⟨k.state.enabled, k.held, k.lastError⟩

/-- `reconcile_and_status`, without the status. -/
def reconcile : Core :=
  { k with
    held := (k.state.reconcile denial k.held).1
    lastError := (k.state.reconcile denial k.held).2 }

def setEnabled (enabled : Bool) : Core :=
  { k with state := { k.state with enabled := enabled } }.reconcile denial

def syncSessions (live : ℕ) : Core :=
  { k with state := { k.state with liveSessions := live } }.reconcile denial

def execute : PowerCommand → Core
  | .setEnabled enabled => k.setEnabled denial enabled
  | .syncSessions live => k.syncSessions denial live

end Core

/-! ### The store -/

/-- The slice `keepAwake`, the error of the failures' streak, and what has been reported. -/
structure PowerStore where
  enabled : Bool
  active : Bool
  error : Option String
  lastPowerError : Option String
  reports : List (String × String)
  deriving DecidableEq, Repr

namespace PowerStore

variable (st : PowerStore)

def reportPowerFailure (op reason : String) : PowerStore :=
  if some reason = st.lastPowerError then st
  else { st with
    lastPowerError := some reason
    reports := st.reports ++ [(op, "keep-awake unavailable: " ++ reason)] }

def applyPowerStatus (op : String) (status : PowerStatus) : PowerStore :=
  let st := { st with
    enabled := status.enabled, active := status.active, error := status.error }
  match status.error with
  | some reason => st.reportPowerFailure op reason
  | none => { st with lastPowerError := none }

/-- The `catch` of a command that broke in transit. -/
def transitFailed (op reason : String) : PowerStore :=
  { st with active := false, error := some reason }.reportPowerFailure op reason

end PowerStore

/-! ### The app -/

/-- A command in flight, with the number of the status it was answered with and the status, once the
core has executed it. -/
structure Call where
  command : PowerCommand
  reply : Option (ℕ × PowerStatus)
  deriving DecidableEq, Repr

/-- The preference, the open sessions, the store, the core and the commands in flight as they were
sent; `computed` counts the statuses. -/
structure PowerApp where
  persisted : Bool
  openSessions : ℕ
  store : PowerStore
  core : Core
  lastAcquireDenied : Bool
  flight : List Call
  computed : ℕ
  deriving DecidableEq, Repr

inductive PowerAction
  | toggle
  | setSessions (openSessions : ℕ)
  /-- The core executes a command; the system denies an acquire, with a reason. -/
  | execute (i : ℕ) (denial : Option String)
  | deliver (i : ℕ)
  /-- A command, or its reply, is lost. -/
  | lose (i : ℕ) (reason : String)
  deriving DecidableEq, Repr

/-- The effects of the mount have run. -/
def mounted (persisted : Bool) (openSessions : ℕ) : PowerApp where
  persisted := persisted
  openSessions := openSessions
  store := ⟨persisted, false, none, none, []⟩
  core := .new
  lastAcquireDenied := false
  flight := [⟨.setEnabled persisted, none⟩, ⟨.syncSessions openSessions, none⟩]
  computed := 0

/-- Whether a command makes the core acquire the assertion. -/
def Core.acquires (k : Core) (c : PowerCommand) : Bool :=
  (k.execute none c).state.want && !k.held

namespace PowerApp

def step (s : PowerApp) : PowerAction → Option PowerApp
  | .toggle =>
    let enabled := !s.store.enabled
    some { s with
      persisted := enabled
      store := { s.store with enabled := enabled }
      flight := s.flight ++ [⟨.setEnabled enabled, none⟩] }
  | .setSessions n =>
    if n = s.openSessions then none
    else some { s with openSessions := n, flight := s.flight ++ [⟨.syncSessions n, none⟩] }
  | .execute i denial =>
    match s.flight[i]? with
    | some ⟨c, none⟩ =>
      let core := s.core.execute denial c
      some { s with
        core := core
        lastAcquireDenied := if s.core.acquires c then denial.isSome else s.lastAcquireDenied
        flight := s.flight.set i ⟨c, some (s.computed + 1, core.status)⟩
        computed := s.computed + 1 }
    | _ => none
  | .deliver i =>
    match s.flight[i]? with
    | some ⟨c, some (_, status)⟩ =>
      some { s with
        store := s.store.applyPowerStatus c.op status
        flight := s.flight.eraseIdx i }
    | _ => none
  | .lose i reason =>
    match s.flight[i]? with
    | some ⟨c, _⟩ =>
      some { s with
        store := s.store.transitFailed c.op reason
        flight := s.flight.eraseIdx i }
    | none => none

/-- The reply that carries the core's last status is in flight. -/
def lastComing (computed : ℕ) (flight : List Call) : Bool :=
  flight.any fun c => c.reply.any fun r => r.1 = computed

/-- That reply is, or a command the core has yet to execute. -/
def coming (computed : ℕ) (flight : List Call) : Bool :=
  flight.any fun c => c.reply.all fun r => r.1 = computed

/-- The pill tells the truth: when nothing is in flight the store, the preference and the core agree
and the assertion is held as it should be; and it is not shown held when it was not, by the core's
last status, unless that status is on its way. -/
structure TellsTruth (s : PowerApp) : Prop where
  agree : s.flight = [] → s.store.enabled = s.persisted ∧ s.core.state.enabled = s.persisted
  heldOnly : s.flight = [] → s.core.held = true → s.core.state.enabled = true ∧ 0 < s.openSessions
  held : s.flight = [] → s.core.state.enabled = true → 0 < s.openSessions →
    s.lastAcquireDenied = false → s.core.held = true
  active : s.flight = [] → s.store.active = s.core.held
  shown : s.store.active = true → s.core.held = false → lastComing s.computed s.flight = true

/-- The values of the commands the core has yet to execute, of one kind. -/
def waiting {β : Type} (kind : PowerCommand → Option β) (flight : List Call) : List β :=
  flight.filterMap fun c => if c.reply.isNone then kind c.command else none

/-- No command of its kind that was sent earlier waits to be executed. -/
def First (s : PowerApp) (i : ℕ) : PowerCommand → Prop
  | .setEnabled _ => waiting PowerCommand.enabled? (s.flight.take i) = []
  | .syncSessions _ => waiting PowerCommand.live? (s.flight.take i) = []

/-- One that was sent later does. -/
def Superseded (s : PowerApp) (i : ℕ) : PowerCommand → Prop
  | .setEnabled _ => waiting PowerCommand.enabled? (s.flight.drop (i + 1)) ≠ []
  | .syncSessions _ => waiting PowerCommand.live? (s.flight.drop (i + 1)) ≠ []

/-- Commands of a kind are executed as they were sent.  A reply is applied before the one with the
core's last status is gone, or before a command is executed and without showing an assertion that is
not held.  What is lost is a command that another of its kind follows, or a reply that is not the
last to come, or one that leaves nothing held and the toggle as it is shown. -/
def Orderly (s : PowerApp) : PowerAction → Prop
  | .toggle => True
  | .setSessions _ => True
  | .execute i _ => ∀ c, s.flight[i]? = some ⟨c, none⟩ → s.First i c
  | .deliver i => ∀ c k status, s.flight[i]? = some ⟨c, some (k, status)⟩ →
      k = s.computed ∨ lastComing s.computed (s.flight.eraseIdx i) = true ∨
        coming s.computed (s.flight.eraseIdx i) = true ∧
          (status.active = true → s.core.held = true)
  | .lose i _ => ∀ c reply, s.flight[i]? = some ⟨c, reply⟩ →
      (reply = none → s.Superseded i c) ∧
      ∀ k status, reply = some (k, status) →
        coming s.computed (s.flight.eraseIdx i) = true ∨
          s.core.held = false ∧ (k = s.computed → s.store.enabled = status.enabled)

/-! ### What is kept -/

/-- The core gets the value the last command of a kind carries, or keeps the one it has. -/
def lastOf {β : Type} (d : β) (l : List β) : β := l.getLast?.getD d

/-- What is in flight brings the core to the preference and to the sessions that are open, the
assertion is held as the core wants it, and the store shows the core's last status or is to. -/
structure PowerInv (s : PowerApp) : Prop where
  enabled : lastOf s.core.state.enabled (waiting PowerCommand.enabled? s.flight) = s.persisted
  live : lastOf s.core.state.liveSessions (waiting PowerCommand.live? s.flight) = s.openSessions
  held : s.core.held = true → s.core.state.want = true
  denied : s.core.state.want = true → s.core.held = false → s.lastAcquireDenied = true
  store : s.store.enabled = s.core.state.enabled ∧ s.store.active = s.core.held ∨
    coming s.computed s.flight = true
  shown : s.store.active = true → s.core.held = true ∨ lastComing s.computed s.flight = true
  numbered : ∀ x ∈ s.flight, ∀ k status, x.reply = some (k, status) → k ≤ s.computed ∧
    (k = s.computed → status.enabled = s.core.state.enabled ∧ status.active = s.core.held)

variable {β : Type} {kind : PowerCommand → Option β} {flight : List Call} {s t : PowerApp} {i : ℕ}
  {c : PowerCommand} {reply : Option (ℕ × PowerStatus)} {computed : ℕ} {d b : β} {l : List β}

theorem lastOf_cons : lastOf d (b :: l) = lastOf b l := by
  unfold lastOf
  rw [List.getLast?_cons, Option.getD_some]

theorem lastOf_concat : lastOf d (l ++ [b]) = b := by
  simp [lastOf]

theorem waiting_append {r : List Call} :
    waiting kind (flight ++ r) = waiting kind flight ++ waiting kind r :=
  List.filterMap_append

theorem waiting_concat : waiting kind (flight ++ [⟨c, none⟩]) =
    waiting kind flight ++ (kind c).toList := by
  rw [waiting_append]
  rcases h : kind c with _ | b <;> simp [waiting, h]

theorem flight_split (h : flight[i]? = some ⟨c, reply⟩) :
    flight = flight.take i ++ ⟨c, reply⟩ :: flight.drop (i + 1) := by
  obtain ⟨hi, hget⟩ := List.getElem?_eq_some_iff.1 h
  rw [← hget, List.getElem_cons_drop, List.take_append_drop]

theorem waiting_split (h : flight[i]? = some ⟨c, none⟩) : waiting kind flight =
    waiting kind (flight.take i) ++ ((kind c).toList ++ waiting kind (flight.drop (i + 1))) := by
  conv_lhs => rw [flight_split h, waiting_append]
  rcases hkind : kind c with _ | b <;> simp [waiting, hkind]

theorem waiting_eraseIdx : waiting kind (flight.eraseIdx i) =
    waiting kind (flight.take i) ++ waiting kind (flight.drop (i + 1)) := by
  rw [List.eraseIdx_eq_take_drop_succ, waiting_append]

/-- A reply that is no longer in flight was waited for by nothing. -/
theorem waiting_eraseIdx_of_reply {r : ℕ × PowerStatus} (h : flight[i]? = some ⟨c, some r⟩) :
    waiting kind (flight.eraseIdx i) = waiting kind flight := by
  conv_rhs => rw [flight_split h, waiting_append]
  rw [waiting_eraseIdx]
  simp [waiting]

theorem waiting_set (h : flight[i]? = some ⟨c, reply⟩) (r : ℕ × PowerStatus) :
    waiting kind (flight.set i ⟨c, some r⟩) =
      waiting kind (flight.take i) ++ waiting kind (flight.drop (i + 1)) := by
  obtain ⟨hi, -⟩ := List.getElem?_eq_some_iff.1 h
  rw [List.set_eq_take_append_cons_drop, if_pos hi, waiting_append]
  simp [waiting]

theorem lastComing_set (h : flight[i]? = some ⟨c, reply⟩) (status : PowerStatus) :
    lastComing computed (flight.set i ⟨c, some (computed, status)⟩) = true := by
  obtain ⟨hi, -⟩ := List.getElem?_eq_some_iff.1 h
  refine List.any_eq_true.2 ⟨_, List.mem_set hi _, ?_⟩
  simp

theorem coming_of_lastComing (h : lastComing computed flight = true) :
    coming computed flight = true := by
  obtain ⟨c, hc, hlast⟩ := List.any_eq_true.1 h
  refine List.any_eq_true.2 ⟨c, hc, ?_⟩
  rcases hr : c.reply with _ | r
  · rfl
  · rw [hr] at hlast
    exact hlast

/-- What has a reply older than the last status is not what is to come. -/
theorem coming_eraseIdx {k : ℕ} {status : PowerStatus}
    (hget : flight[i]? = some ⟨c, some (k, status)⟩) (hk : k ≠ computed)
    (h : coming computed flight = true) : coming computed (flight.eraseIdx i) = true := by
  obtain ⟨x, hx, hreply⟩ := List.any_eq_true.1 h
  refine List.any_eq_true.2 ⟨x, Slots.mem_eraseIdx_of_ne hget hx ?_, hreply⟩
  rintro rfl
  exact hk (by simpa using hreply)

theorem coming_of_superseded (h : s.Superseded i c) :
    coming computed (s.flight.eraseIdx i) = true := by
  have hwaits : ∀ {β : Type} {kind : PowerCommand → Option β},
      waiting kind (s.flight.drop (i + 1)) ≠ [] →
        coming computed (s.flight.eraseIdx i) = true := by
    intro β kind hne
    obtain ⟨b, hb⟩ := List.exists_mem_of_ne_nil _ hne
    obtain ⟨x, hx, hb⟩ := List.mem_filterMap.1 hb
    refine List.any_eq_true.2 ⟨x, ?_, ?_⟩
    · rw [List.eraseIdx_eq_take_drop_succ]
      exact List.mem_append_right _ hx
    · rcases hr : x.reply with _ | r
      · rfl
      · simp [hr] at hb
  cases c with
  | setEnabled b => exact hwaits h
  | syncSessions n => exact hwaits h

theorem coming_concat : coming computed (flight ++ [⟨c, none⟩]) = true := by
  simp [coming]

theorem lastComing_concat (h : lastComing computed flight = true) :
    lastComing computed (flight ++ [⟨c, none⟩]) = true := by
  rw [lastComing, List.any_append]
  exact Bool.or_eq_true_iff.2 (.inl h)

theorem PowerInv.numbered_concat (h : PowerInv s) (c : PowerCommand) :
    ∀ x ∈ s.flight ++ [⟨c, none⟩], ∀ k status, x.reply = some (k, status) → k ≤ s.computed ∧
      (k = s.computed → status.enabled = s.core.state.enabled ∧ status.active = s.core.held) := by
  intro x hx k status hreply
  rcases List.mem_append.1 hx with hx | hx
  · exact h.numbered x hx k status hreply
  · cases List.mem_singleton.1 hx
    cases hreply

theorem powerInv_toggle (h : PowerInv s) (hstep : s.step .toggle = some t) : PowerInv t := by
  obtain rfl := Option.some.inj hstep
  refine ⟨?_, ?_, h.held, h.denied, .inr coming_concat, fun ha => ?_, h.numbered_concat _⟩
  · rw [waiting_concat]
    exact lastOf_concat
  · rw [waiting_concat]
    simpa [PowerCommand.live?] using h.live
  · exact (h.shown ha).imp_right lastComing_concat

theorem powerInv_setSessions {n : ℕ} (h : PowerInv s) (hstep : s.step (.setSessions n) = some t) :
    PowerInv t := by
  simp only [step, Option.ite_none_left_eq_some] at hstep
  obtain ⟨-, hstep⟩ := hstep
  obtain rfl := Option.some.inj hstep
  refine ⟨?_, ?_, h.held, h.denied, .inr coming_concat, fun ha => ?_, h.numbered_concat _⟩
  · rw [waiting_concat]
    simpa [PowerCommand.enabled?] using h.enabled
  · rw [waiting_concat]
    exact lastOf_concat
  · exact (h.shown ha).imp_right lastComing_concat

/-- What the core has once a command is executed: the command's value, and the assertion as it wants
it unless it was just denied. -/
theorem execute_state (k : Core) (denial : Option String) (c : PowerCommand) :
    (k.execute denial c).state.enabled = c.enabled?.getD k.state.enabled ∧
      (k.execute denial c).state.liveSessions = c.live?.getD k.state.liveSessions := by
  rcases c with b | n <;> exact ⟨rfl, rfl⟩

theorem execute_want (k : Core) (denial denial' : Option String) (c : PowerCommand) :
    (k.execute denial c).state.want = (k.execute denial' c).state.want := by
  rcases c with b | n <;> rfl

theorem execute_held (k : Core) (denial : Option String) (c : PowerCommand) :
    (k.execute denial c).held =
      if k.acquires c then denial.isNone
      else k.held && (k.execute denial c).state.want := by
  have hheld : ∀ (state : KeepAwakeState) (held : Bool),
      (state.reconcile denial held).1 =
        if state.want && !held then denial.isNone else held && state.want := by
    intro state held
    unfold KeepAwakeState.reconcile
    rcases state.want <;> rcases held <;> rfl
  rcases c with b | n
  · exact hheld _ _
  · exact hheld _ _

theorem powerInv_execute {denial : Option String} (h : PowerInv s)
    (hc : s.Orderly (.execute i denial)) (hstep : s.step (.execute i denial) = some t) :
    PowerInv t := by
  rcases hget : s.flight[i]? with _ | ⟨c, _ | r⟩
  · simp [step, hget] at hstep
  · simp only [step, hget] at hstep
    obtain rfl := Option.some.inj hstep
    have hfirst := hc c hget
    obtain ⟨hen, hlive⟩ := execute_state s.core denial c
    have hlast : lastComing (s.computed + 1) (s.flight.set i ⟨c, some (s.computed + 1,
        (s.core.execute denial c).status)⟩) = true := lastComing_set hget _
    refine ⟨?_, ?_, fun hheld => ?_, fun hwant hheld => ?_, .inr (coming_of_lastComing hlast),
      fun _ => .inr hlast, fun x hx k status hreply => ?_⟩
    · simp only [hen, waiting_set hget]
      have hold := h.enabled
      rw [waiting_split hget] at hold
      rcases c with b | n
      · rw [First] at hfirst
        rw [hfirst, List.nil_append] at hold ⊢
        simpa [PowerCommand.enabled?, lastOf_cons] using hold
      · simpa [PowerCommand.enabled?] using hold
    · simp only [hlive, waiting_set hget]
      have hold := h.live
      rw [waiting_split hget] at hold
      rcases c with b | n
      · simpa [PowerCommand.live?] using hold
      · rw [First] at hfirst
        rw [hfirst, List.nil_append] at hold ⊢
        simpa [PowerCommand.live?, lastOf_cons] using hold
    · simp only [execute_held] at hheld
      split_ifs at hheld with hacq
      · rw [Core.acquires, Bool.and_eq_true] at hacq
        rw [execute_want s.core denial none c]
        exact hacq.1
      · exact (Bool.and_eq_true_iff.1 hheld).2
    · simp only [execute_held] at hheld
      split_ifs at hheld with hacq
      · simp only [if_pos hacq]
        rcases denial with _ | e
        · simp at hheld
        · rfl
      · simp only [if_neg hacq]
        -- the core wanted to hold it, did not, and acquired nothing
        rw [hwant, Bool.and_true] at hheld
        refine absurd ?_ hacq
        rw [Core.acquires, ← execute_want s.core denial none c, hwant, hheld]
        rfl
    · rcases List.mem_or_eq_of_mem_set hx with hx | rfl
      · have hle := (h.numbered x hx k status hreply).1
        refine ⟨Nat.le_succ_of_le hle, fun heq => ?_⟩
        rw [heq] at hle
        exact absurd hle (Nat.not_succ_le_self s.computed)
      · obtain ⟨rfl, rfl⟩ := Prod.mk.inj (Option.some.inj hreply)
        exact ⟨Nat.le_refl _, fun _ => ⟨rfl, rfl⟩⟩
  · simp [step, hget] at hstep

theorem powerInv_deliver (h : PowerInv s) (hc : s.Orderly (.deliver i))
    (hstep : s.step (.deliver i) = some t) : PowerInv t := by
  rcases hget : s.flight[i]? with _ | ⟨c, _ | ⟨k, status⟩⟩
  · simp [step, hget] at hstep
  · simp [step, hget] at hstep
  · simp only [step, hget] at hstep
    obtain rfl := Option.some.inj hstep
    have hlast := (h.numbered _ (List.mem_of_getElem? hget) k status rfl).2
    have hstore : (s.store.applyPowerStatus c.op status).enabled = status.enabled ∧
        (s.store.applyPowerStatus c.op status).active = status.active := by
      unfold PowerStore.applyPowerStatus PowerStore.reportPowerFailure
      rcases status.error with _ | e
      · exact ⟨rfl, rfl⟩
      · simp only
        split_ifs <;> exact ⟨rfl, rfl⟩
    refine ⟨?_, ?_, h.held, h.denied, ?_, fun ha => ?_,
      fun x hx => h.numbered x (List.mem_of_mem_eraseIdx hx)⟩
    · rw [waiting_eraseIdx_of_reply hget]
      exact h.enabled
    · rw [waiting_eraseIdx_of_reply hget]
      exact h.live
    · simp only [hstore.1, hstore.2]
      rcases hc c k status hget with hk | hcoming | ⟨hcoming, -⟩
      · exact .inl (hlast hk)
      · exact .inr (coming_of_lastComing hcoming)
      · exact .inr hcoming
    · rw [hstore.2] at ha
      rcases hc c k status hget with hk | hcoming | ⟨-, hheld⟩
      · exact .inl ((hlast hk).2.symm.trans ha)
      · exact .inr hcoming
      · exact .inl (hheld ha)

theorem powerInv_lose {reason : String} (h : PowerInv s) (hc : s.Orderly (.lose i reason))
    (hstep : s.step (.lose i reason) = some t) : PowerInv t := by
  rcases hget : s.flight[i]? with _ | ⟨c, reply⟩
  · simp [step, hget] at hstep
  · simp only [step, hget] at hstep
    obtain rfl := Option.some.inj hstep
    obtain ⟨hnext, hright⟩ := hc c reply hget
    have hstore : (s.store.transitFailed c.op reason).enabled = s.store.enabled ∧
        (s.store.transitFailed c.op reason).active = false := by
      unfold PowerStore.transitFailed PowerStore.reportPowerFailure
      simp only
      split_ifs <;> exact ⟨rfl, rfl⟩
    have hwaiting : ∀ {β : Type} (kind : PowerCommand → Option β) (d : β),
        (reply = none → kind c ≠ none → waiting kind (s.flight.drop (i + 1)) ≠ []) →
        lastOf d (waiting kind (s.flight.eraseIdx i)) = lastOf d (waiting kind s.flight) := by
      intro β kind d hlater
      rcases reply with _ | r
      · rw [waiting_split hget, waiting_eraseIdx]
        rcases hkind : kind c with _ | b
        · simp
        · have hne := hlater rfl (by simp [hkind])
          unfold lastOf
          rw [List.getLast?_append_of_ne_nil _ hne, List.getLast?_append_of_ne_nil _ (by simp),
            List.getLast?_append_of_ne_nil _ hne]
      · rw [waiting_eraseIdx_of_reply hget]
    refine ⟨?_, ?_, h.held, h.denied, ?_, fun ha => ?_,
      fun x hx => h.numbered x (List.mem_of_mem_eraseIdx hx)⟩
    · rw [hwaiting]
      · exact h.enabled
      · intro hnone hkind
        have hsup := hnext hnone
        rcases c with b | n
        · exact hsup
        · exact absurd rfl hkind
    · rw [hwaiting]
      · exact h.live
      · intro hnone hkind
        have hsup := hnext hnone
        rcases c with b | n
        · exact absurd rfl hkind
        · exact hsup
    · simp only [hstore.1, hstore.2]
      rcases reply with _ | ⟨k, status⟩
      · exact .inr (coming_of_superseded (hnext rfl))
      · rcases hright k status rfl with hcoming | ⟨hheld, hshows⟩
        · exact .inr hcoming
        · by_cases hk : k = s.computed
          · have hlast := (h.numbered _ (List.mem_of_getElem? hget) k status rfl).2 hk
            exact .inl ⟨(hshows hk).trans hlast.1, hheld.symm⟩
          · -- it was not what the store waited for
            rcases h.store with hagree | hcoming
            · exact .inl ⟨hagree.1, hheld.symm⟩
            · exact .inr (coming_eraseIdx hget hk hcoming)
    · rw [hstore.2] at ha
      cases ha

theorem powerInv_step {a : PowerAction} (h : PowerInv s) (hc : s.Orderly a)
    (hstep : s.step a = some t) : PowerInv t := by
  cases a with
  | toggle => exact powerInv_toggle h hstep
  | setSessions n => exact powerInv_setSessions h hstep
  | execute i denial => exact powerInv_execute h hc hstep
  | deliver i => exact powerInv_deliver h hc hstep
  | lose i reason => exact powerInv_lose h hc hstep

theorem powerInv_mounted (persisted : Bool) (n : ℕ) : PowerInv (mounted persisted n) := by
  refine ⟨rfl, rfl, fun h => ?_, fun h => ?_, .inr rfl, fun h => ?_, fun x hx k status hreply => ?_⟩
  · cases h
  · cases h
  · cases h
  · rcases List.mem_pair.1 hx with rfl | rfl <;> cases hreply

theorem tellsTruth_of_inv (h : PowerInv s) : s.TellsTruth := by
  have hshow : s.flight = [] → s.store.enabled = s.core.state.enabled ∧
      s.store.active = s.core.held := by
    intro hempty
    rcases h.store with hs | hs
    · exact hs
    · simp [coming, hempty] at hs
  have hen : s.flight = [] → s.core.state.enabled = s.persisted := by
    intro hempty
    have h' := h.enabled
    rwa [hempty] at h'
  have hlive : s.flight = [] → s.core.state.liveSessions = s.openSessions := by
    intro hempty
    have h' := h.live
    rwa [hempty] at h'
  refine ⟨fun he => ⟨(hshow he).1.trans (hen he), hen he⟩, fun he hheld => ?_,
    fun he hon hopen hdenied => ?_, fun he => (hshow he).2, fun ha hheld => ?_⟩
  · have hwant := h.held hheld
    rw [KeepAwakeState.want, Bool.and_eq_true, decide_eq_true_eq, hlive he] at hwant
    exact hwant
  · by_contra hno
    have hwant : s.core.state.want = true := by
      rw [KeepAwakeState.want, hon, hlive he]
      simpa using hopen
    rw [h.denied hwant (by simpa using hno)] at hdenied
    cases hdenied
  · rcases h.shown ha with hs | hs
    · rw [hs] at hheld
      cases hheld
    · exact hs

/-- The pill tells the truth throughout every run whose steps are orderly. -/
theorem tellsTruth_of_orderly {persisted : Bool} {openSessions : ℕ} {as : List PowerAction}
    (h : Runs.Along step Orderly (mounted persisted openSessions) as) :
    Runs.Throughout step TellsTruth (mounted persisted openSessions) as :=
  h.throughout (fun _ _ _ => powerInv_step) (fun _ => tellsTruth_of_inv)
    (powerInv_mounted persisted openSessions)

/-- A session is open when the app is mounted, and the answers come as they were given. -/
theorem tellsTruth_mount : Runs.Throughout step TellsTruth (mounted true 1)
    [.execute 0 none, .execute 1 none, .deliver 0, .deliver 0] := by
  refine tellsTruth_of_orderly ?_
  simp [Runs.Along, step, mounted, Orderly, First, waiting, Core.execute, Core.setEnabled,
    Core.syncSessions, Core.reconcile, Core.new, Core.status, Core.acquires, coming, lastComing,
    KeepAwakeState.reconcile, KeepAwakeState.want, PowerCommand.enabled?, PowerCommand.live?]

/-- The toggle is turned off while the answer about the open session is on its way, and the answers
come the other way round. -/
theorem overtaken_not_tellsTruth : ¬Runs.Throughout step TellsTruth (mounted true 1)
    [.execute 0 none, .deliver 0, .execute 0 none, .toggle, .execute 1 none, .deliver 1,
      .deliver 0] := by
  intro h
  have hagree := ((h.last rfl).agree rfl).1
  exact absurd hagree (by decide)

end PowerApp

end KeepAwake

end BuilderPro
