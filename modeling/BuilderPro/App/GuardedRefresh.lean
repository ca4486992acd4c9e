import Mathlib.Logic.Function.Basic
import BuilderPro.Lib.Runs

/-!
# `guardedRefresh`

The store's refreshes run under a guard for each key (`store.ts`).  The first call of a key runs
fetches until none of its calls came after the last one began; a call that comes meanwhile marks the
guard and returns.  Every copy ends on a fetch begun since the last call.  The promise of a call
that only marked the guard is resolved at once.
-/

namespace BuilderPro

/-- A run of `guardedRefresh` that fetches, and the promises that it resolves in the end. -/
structure RefreshLoop where
  attemptEpoch : ℕ
  beganAt : ℕ
  /-- The fetch is in flight; otherwise the attempt is over, and the loop goes on. -/
  waiting : Bool
  promises : List ℕ
  deriving DecidableEq

/-- A fetch that is over: its response, if it succeeded, and what the slice held before. -/
structure SettledFetch (ν : Type*) where
  beganAt : ℕ
  settledAt : ℕ
  response : Option ν
  applied : Bool
  before : ν
  deriving DecidableEq

/-- A key's guard, the loops that run under it and its slice, with the times of its calls, the
fetches so far and the promises resolved (by the times of their calls). -/
structure RefreshKey (ν : Type*) where
  epoch : ℕ
  inFlight : Bool
  dirty : Bool
  loops : List RefreshLoop
  slice : ν
  calls : List ℕ
  settled : List (SettledFetch ν)
  resolved : List ℕ

namespace RefreshKey

variable {ν : Type*} (k : RefreshKey ν)

def init (slice : ν) : RefreshKey ν := ⟨0, false, false, [], slice, [], [], []⟩

/-- A call of `guardedRefresh`, with the promises that wait for it. -/
def guardedRefresh (now : ℕ) (promises : List ℕ) : RefreshKey ν :=
  if k.inFlight then
    { k with
      epoch := k.epoch + 1, dirty := true, calls := k.calls ++ [now]
      resolved := k.resolved ++ promises }
  else
    { k with
      epoch := k.epoch + 1, inFlight := true, dirty := false
      loops := k.loops ++ [⟨k.epoch + 1, now, true, promises⟩], calls := k.calls ++ [now] }

/-- A fetch is over, and the attempt's own continuation runs. -/
def respond (now i : ℕ) (response : Option ν) : Option (RefreshKey ν) :=
  k.loops[i]?.bind fun l =>
    if l.waiting then
      let isCurrent := k.epoch = l.attemptEpoch
      some
        { k with
          loops := k.loops.set i { l with waiting := false }
          slice := if isCurrent then response.getD k.slice else k.slice
          settled := k.settled ++
            [⟨l.beganAt, now, response, response.isSome && isCurrent, k.slice⟩] }
    else none

/-- The loop goes on once its attempt is over. -/
def resume (now i : ℕ) : Option (RefreshKey ν) :=
  k.loops[i]?.bind fun l =>
    if l.waiting then none
    else if k.dirty then
      some
        { k with
          dirty := false, loops := k.loops.set i ⟨k.epoch, now, true, l.promises⟩ }
    else
      some
        { k with
          inFlight := false, loops := k.loops.eraseIdx i
          resolved := k.resolved ++ l.promises }

end RefreshKey

structure RefreshState (ν : Type*) where
  now : ℕ
  keys : String → RefreshKey ν
  invocationsTimer : Bool
  invocationsWaiters : List ℕ

inductive RefreshAction (ν : Type*)
  | guardedRefresh (key : String)
  /-- A fetch of a key succeeds with a response, or fails. -/
  | respond (key : String) (i : ℕ) (response : Option ν)
  | resume (key : String) (i : ℕ)
  | refreshInvocations
  /-- The debounce is over. -/
  | timeout

namespace RefreshState

variable {ν : Type*}

def init (slices : String → ν) : RefreshState ν := ⟨0, fun key => .init (slices key), false, []⟩

variable (st : RefreshState ν)

/-- A key's state is replaced, and time passes. -/
def put (key : String) (k : RefreshKey ν) : RefreshState ν :=
  { st with now := st.now + 1, keys := Function.update st.keys key k }

def step : RefreshAction ν → Option (RefreshState ν)
  | .guardedRefresh key => some (st.put key ((st.keys key).guardedRefresh st.now [st.now]))
  | .respond key i response => ((st.keys key).respond st.now i response).map (st.put key)
  | .resume key i => ((st.keys key).resume st.now i).map (st.put key)
  | .refreshInvocations =>
    some
      { st with
        now := st.now + 1, invocationsTimer := true
        invocationsWaiters := st.invocationsWaiters ++ [st.now] }
  | .timeout =>
    if st.invocationsTimer then
      let k := (st.keys "invocations").guardedRefresh st.now st.invocationsWaiters
      some { st.put "invocations" k with invocationsTimer := false, invocationsWaiters := [] }
    else none

end RefreshState

namespace RefreshKey

variable {ν : Type*} (k : RefreshKey ν)

def OneInFlight : Prop := (k.loops.filter fun l => l.waiting).length ≤ 1

/-- A response is taken over only when no call came after its fetch began. -/
def WritesCurrent : Prop := ∀ f ∈ k.settled, f.applied = true →
  f.response.isSome ∧ ∀ c ∈ k.calls, c < f.settledAt → c ≤ f.beganAt

/-- With nothing in flight, the last fetch began since every call, and the slice is what it brought,
or as it was before if it failed. -/
def EndsFresh : Prop := k.loops = [] → k.calls ≠ [] → ∃ f ∈ k.settled.getLast?,
  (∀ c ∈ k.calls, c ≤ f.beganAt) ∧ k.slice = f.response.getD f.before

/-- A resolved promise: a fetch begun since its call is over. -/
def Kept : Prop := ∀ p ∈ k.resolved, ∃ f ∈ k.settled, p ≤ f.beganAt

/-- The steps that are left until nothing is in flight, if no call comes. -/
def work : ℕ :=
  k.loops.foldr (fun l n => (if l.waiting then 2 else 1) + n) (if k.dirty then 2 else 0)

/-- The guard between the steps of its calls and its loop, at a time. -/
structure Inv (now : ℕ) : Prop where
  past : ∀ c ∈ k.calls, c < now
  settledPast : ∀ f ∈ k.settled, f.settledAt < now ∧ f.beganAt < now
  writes : k.WritesCurrent
  idle : k.inFlight = false → k.loops = [] ∧ k.dirty = false
  fresh : k.EndsFresh
  busy : k.inFlight = true → ∃ l, k.loops = [l] ∧ l.beganAt < now ∧ l.attemptEpoch ≤ k.epoch ∧
    (k.dirty = false → l.attemptEpoch = k.epoch) ∧
    (l.attemptEpoch = k.epoch → ∀ c ∈ k.calls, c ≤ l.beganAt) ∧
    (∀ p ∈ l.promises, p ≤ l.beganAt) ∧
    (l.waiting = false → ∃ f ∈ k.settled.getLast?, f.beganAt = l.beganAt ∧
      (l.attemptEpoch = k.epoch → k.slice = f.response.getD f.before))

variable {k} {k' : RefreshKey ν} {now i : ℕ} {promises : List ℕ} {response : Option ν}

theorem inv_init (slice : ν) : (init slice).Inv now where
  past := nofun
  settledPast := nofun
  writes := nofun
  idle _ := ⟨rfl, rfl⟩
  fresh _ h := absurd rfl h
  busy := nofun

theorem Inv.later (h : k.Inv now) : k.Inv (now + 1) where
  past c hc := Nat.lt_succ_of_lt (h.past c hc)
  settledPast f hf := by
    have := h.settledPast f hf
    omega
  writes := h.writes
  idle := h.idle
  fresh := h.fresh
  busy hin := by
    obtain ⟨l, hl, hbegan, hrest⟩ := h.busy hin
    exact ⟨l, hl, by omega, hrest⟩

theorem Inv.guardedRefresh (h : k.Inv now) (hp : ∀ p ∈ promises, p ≤ now) :
    (k.guardedRefresh now promises).Inv (now + 1) := by
  have hcalls {c : ℕ} (hc : c ∈ k.calls ++ [now]) : c ≤ now := by
    rcases List.mem_append.1 hc with hc | hc
    · exact Nat.le_of_lt (h.past c hc)
    · exact Nat.le_of_eq (List.mem_singleton.1 hc)
  have hwrites : ∀ f ∈ k.settled, f.applied = true → f.response.isSome ∧
      ∀ c ∈ k.calls ++ [now], c < f.settledAt → c ≤ f.beganAt := by
    intro f hf happlied
    refine ⟨(h.writes f hf happlied).1, fun c hc hlt => ?_⟩
    rcases List.mem_append.1 hc with hc | hc
    · exact (h.writes f hf happlied).2 c hc hlt
    · have := (h.settledPast f hf).1
      have := List.mem_singleton.1 hc
      omega
  by_cases hin : k.inFlight
  · obtain ⟨l, hl, hbegan, hle, -, -, hpl, hover⟩ := h.busy hin
    rw [RefreshKey.guardedRefresh, if_pos hin]
    refine ⟨fun c hc => Nat.lt_succ_of_le (hcalls hc), h.later.settledPast, hwrites, ?_, ?_, ?_⟩
    · intro hidle
      rw [hin] at hidle
      cases hidle
    · intro hloops
      rw [hl] at hloops
      cases hloops
    · intro _
      refine ⟨l, hl, by omega, by show l.attemptEpoch ≤ k.epoch + 1; omega, nofun, fun heq => ?_, hpl,
        fun hw => ?_⟩
      · have heq : l.attemptEpoch = k.epoch + 1 := heq
        omega
      · obtain ⟨f, hf, hfl, -⟩ := hover hw
        refine ⟨f, hf, hfl, fun heq => ?_⟩
        have heq : l.attemptEpoch = k.epoch + 1 := heq
        omega
  · have hidle := h.idle (Bool.not_eq_true _ ▸ hin)
    rw [RefreshKey.guardedRefresh, if_neg hin, hidle.1]
    refine ⟨fun c hc => Nat.lt_succ_of_le (hcalls hc), h.later.settledPast, hwrites, nofun, nofun,
      fun _ => ⟨_, rfl, Nat.lt_succ_self now, Nat.le_refl _, fun _ => rfl, fun _ c => hcalls, hp,
        nofun⟩⟩

theorem getElem?_singleton_eq_some {l l' : RefreshLoop} (h : [l][i]? = some l') :
    i = 0 ∧ l' = l := by
  rcases i with _ | i
  · exact ⟨rfl, (Option.some.inj h).symm⟩
  · cases h

theorem Inv.inFlight (h : k.Inv now) {l : RefreshLoop} (hl : k.loops[i]? = some l) :
    k.inFlight = true := by
  by_contra hin
  rw [(h.idle (Bool.not_eq_true _ ▸ hin)).1] at hl
  cases hl

theorem Inv.respond (h : k.Inv now) (hs : k.respond now i response = some k') :
    k'.Inv (now + 1) := by
  obtain ⟨l', hget, hs⟩ := Option.bind_eq_some_iff.1 hs
  obtain ⟨hwaiting, ⟨⟩⟩ := Option.ite_none_right_eq_some.1 hs
  have hin := h.inFlight hget
  obtain ⟨l, hl, hbegan, hle, hclean, hcur, hpl, -⟩ := h.busy hin
  rw [hl] at hget
  obtain ⟨rfl, rfl⟩ := getElem?_singleton_eq_some hget
  refine ⟨h.later.past, fun f hf => ?_, fun f hf happlied => ?_, ?_, ?_, fun _ => ?_⟩
  · rcases List.mem_append.1 hf with hf | hf
    · exact h.later.settledPast f hf
    · rw [List.mem_singleton.1 hf]
      exact ⟨Nat.lt_succ_self now, Nat.lt_succ_of_lt hbegan⟩
  · rcases List.mem_append.1 hf with hf | hf
    · exact h.writes f hf happlied
    · rw [List.mem_singleton.1 hf] at happlied ⊢
      simp only [Bool.and_eq_true, decide_eq_true_eq] at happlied
      exact ⟨happlied.1, fun c hc _ => hcur happlied.2.symm c hc⟩
  · intro hidle
    rw [hin] at hidle
    cases hidle
  · intro hloops
    rw [hl] at hloops
    cases hloops
  · refine ⟨{ l' with waiting := false }, by rw [hl]; rfl, Nat.lt_succ_of_lt hbegan, hle, hclean, hcur,
      hpl, fun _ => ⟨_, by rw [List.getLast?_concat]; rfl, rfl, fun heq => ?_⟩⟩
    exact if_pos heq.symm

theorem Inv.resume (h : k.Inv now) (hs : k.resume now i = some k') : k'.Inv (now + 1) := by
  obtain ⟨l', hget, hs⟩ := Option.bind_eq_some_iff.1 hs
  obtain ⟨hwaiting, hs⟩ := Option.ite_none_left_eq_some.1 hs
  have hin := h.inFlight hget
  obtain ⟨l, hl, hbegan, hle, hclean, hcur, hpl, hover⟩ := h.busy hin
  rw [hl] at hget
  obtain ⟨rfl, rfl⟩ := getElem?_singleton_eq_some hget
  by_cases hdirty : k.dirty
  · -- a call came after the fetch began: another one follows
    rw [if_pos hdirty] at hs
    cases hs
    refine ⟨h.later.past, h.later.settledPast, h.writes, fun hidle => ?_, fun hloops => ?_,
      fun _ => ⟨⟨k.epoch, now, true, l'.promises⟩, by rw [hl]; rfl, Nat.lt_succ_self now,
        Nat.le_refl _, fun _ => rfl, fun _ c hc => Nat.le_of_lt (h.past c hc),
        fun p hp => Nat.le_of_lt (Nat.lt_of_le_of_lt (hpl p hp) hbegan), nofun⟩⟩
    · rw [hin] at hidle
      cases hidle
    · rw [hl] at hloops
      cases hloops
  · have hdirty := Bool.not_eq_true _ ▸ hdirty
    rw [if_neg (by simp [hdirty])] at hs
    cases hs
    have hepoch := hclean hdirty
    obtain ⟨f, hf, hfl, hslice⟩ := hover (Bool.not_eq_true _ ▸ hwaiting)
    refine ⟨h.later.past, h.later.settledPast, h.writes, fun _ => ⟨by rw [hl]; rfl, hdirty⟩,
      fun _ _ => ⟨f, hf, fun c hc => ?_, hslice hepoch⟩, nofun⟩
    rw [hfl]
    exact hcur hepoch c hc

theorem Inv.oneInFlight (h : k.Inv now) : k.OneInFlight := by
  by_cases hin : k.inFlight
  · obtain ⟨l, hl, -⟩ := h.busy hin
    rw [OneInFlight, hl]
    exact List.length_filter_le _ _
  · rw [OneInFlight, (h.idle (Bool.not_eq_true _ ▸ hin)).1]
    exact Nat.zero_le _

/-! ### What is left to do -/

theorem Inv.work_eq (h : k.Inv now) : (k.inFlight = false ∧ k.work = 0) ∨ (k.inFlight = true ∧
    ∃ l, k.loops = [l] ∧ k.work = (if l.waiting then 2 else 1) + if k.dirty then 2 else 0) := by
  by_cases hin : k.inFlight
  · obtain ⟨l, hl, -⟩ := h.busy hin
    refine .inr ⟨hin, l, hl, ?_⟩
    rw [work, hl, List.foldr_cons, List.foldr_nil]
  · have hin := Bool.not_eq_true _ ▸ hin
    obtain ⟨hl, hd⟩ := h.idle hin
    refine .inl ⟨hin, ?_⟩
    simp [work, hl, hd]

theorem Inv.work_eq_zero (h : k.Inv now) : k.work = 0 ↔ k.inFlight = false := by
  rcases h.work_eq with ⟨hin, hw⟩ | ⟨hin, l, -, hw⟩
  · simp [hin, hw]
  · rw [hw, hin]
    split_ifs <;> simp

theorem Inv.work_respond (h : k.Inv now) (hs : k.respond now i response = some k') :
    k'.work + 1 = k.work := by
  obtain ⟨l', hget, hs⟩ := Option.bind_eq_some_iff.1 hs
  obtain ⟨hwaiting, ⟨⟩⟩ := Option.ite_none_right_eq_some.1 hs
  obtain ⟨l, hl, -⟩ := h.busy (h.inFlight hget)
  rw [hl] at hget
  obtain ⟨rfl, rfl⟩ := getElem?_singleton_eq_some hget
  simp only [work, hl, List.set_cons_zero, List.foldr_cons, List.foldr_nil, hwaiting, if_pos,
    Bool.false_eq_true, if_false]
  omega

theorem Inv.work_resume (h : k.Inv now) (hs : k.resume now i = some k') :
    k'.work + 1 = k.work := by
  obtain ⟨l', hget, hs⟩ := Option.bind_eq_some_iff.1 hs
  obtain ⟨hwaiting, hs⟩ := Option.ite_none_left_eq_some.1 hs
  obtain ⟨l, hl, -⟩ := h.busy (h.inFlight hget)
  rw [hl] at hget
  obtain ⟨rfl, rfl⟩ := getElem?_singleton_eq_some hget
  by_cases hdirty : k.dirty
  · rw [if_pos hdirty] at hs
    cases hs
    simp [work, hl, hwaiting, hdirty]
  · rw [if_neg hdirty] at hs
    cases hs
    simp [work, hl, hwaiting, hdirty]

/-- Something in flight can go on. -/
theorem Inv.goes_on (h : k.Inv now) (hin : k.inFlight = true) :
    (k.respond now 0 none).isSome ∨ (k.resume now 0).isSome := by
  obtain ⟨l, hl, -⟩ := h.busy hin
  by_cases hw : l.waiting
  · simp [RefreshKey.respond, hl, hw]
  · right
    simp only [RefreshKey.resume, hl, List.getElem?_cons_zero, Option.bind_some, if_neg hw]
    split_ifs <;> rfl

/-! ### The promises -/

theorem Kept.respond (h : k.Kept) (hs : k.respond now i response = some k') : k'.Kept := by
  obtain ⟨l, -, hs⟩ := Option.bind_eq_some_iff.1 hs
  obtain ⟨-, ⟨⟩⟩ := Option.ite_none_right_eq_some.1 hs
  intro p hp
  obtain ⟨f, hf, hle⟩ := h p hp
  exact ⟨f, List.mem_append_left _ hf, hle⟩

/-- A loop's own promises wait for a fetch begun since their calls. -/
theorem Kept.resume (hk : k.Inv now) (h : k.Kept) (hs : k.resume now i = some k') : k'.Kept := by
  obtain ⟨l', hget, hs⟩ := Option.bind_eq_some_iff.1 hs
  obtain ⟨hwaiting, hs⟩ := Option.ite_none_left_eq_some.1 hs
  obtain ⟨l, hl, -, -, -, -, hpl, hover⟩ := hk.busy (hk.inFlight hget)
  rw [hl] at hget
  obtain ⟨rfl, rfl⟩ := getElem?_singleton_eq_some hget
  by_cases hdirty : k.dirty
  · rw [if_pos hdirty] at hs
    cases hs
    exact h
  · rw [if_neg hdirty] at hs
    cases hs
    intro p hp
    rcases List.mem_append.1 hp with hp | hp
    · exact h p hp
    · obtain ⟨f, hf, hfl, -⟩ := hover (Bool.not_eq_true _ ▸ hwaiting)
      exact ⟨f, List.mem_of_getLast? hf, hfl ▸ hpl p hp⟩

theorem kept_guardedRefresh (h : k.Kept) : (k.guardedRefresh now promises).Kept ↔
    (k.inFlight = true → ∀ p ∈ promises, ∃ f ∈ k.settled, p ≤ f.beganAt) := by
  by_cases hin : k.inFlight
  · rw [RefreshKey.guardedRefresh, if_pos hin]
    constructor
    · exact fun hk _ p hp => hk p (List.mem_append_right _ hp)
    · intro hp p hpmem
      rcases List.mem_append.1 hpmem with hpmem | hpmem
      · exact h p hpmem
      · exact hp hin p hpmem
  · rw [RefreshKey.guardedRefresh, if_neg hin]
    exact iff_of_true h fun hin' => absurd hin' hin

end RefreshKey

namespace RefreshState

variable {ν : Type*}

/-- A fetch of the key ends, or its loop goes on. -/
def Completes (key : String) : RefreshAction ν → Prop
  | .respond key' _ _ | .resume key' _ => key' = key
  | _ => False

/-- The key that an action is about. -/
def subject : RefreshAction ν → Option String
  | .guardedRefresh key | .respond key _ _ | .resume key _ => some key
  | .refreshInvocations => none
  | .timeout => some "invocations"

variable (st : RefreshState ν)

/-- Whatever ends in whatever order, nothing is in flight for a key once as many steps are taken as
are left, and there is always one to take. -/
def NotBlocked (key : String) : Prop :=
  ((st.keys key).work = 0 ↔ (st.keys key).loops = []) ∧
    ((st.keys key).loops ≠ [] → ∃ a, Completes key a ∧ (step st a).isSome) ∧
    ∀ as st', (∀ a ∈ as, Completes key a) → Runs.run step st as = some st' →
      as.length + (st'.keys key).work = (st.keys key).work

/-- An action leaves the other keys as they are. -/
def Independent : Prop := ∀ a st', step st a = some st' → ∀ key, subject a ≠ some key →
  st'.keys key = st.keys key

structure Guarded : Prop where
  oneInFlight : ∀ key, (st.keys key).OneInFlight
  writesCurrent : ∀ key, (st.keys key).WritesCurrent
  endsFresh : ∀ key, (st.keys key).EndsFresh
  notBlocked : ∀ key, st.NotBlocked key
  independent : st.Independent

def Kept : Prop := ∀ key, (st.keys key).Kept

/-- A call finds nothing of its key in flight; the debounce ends then, or when a fetch begun since
each of its calls is over. -/
def InTurn : RefreshAction ν → Prop
  | .guardedRefresh key => (st.keys key).inFlight = false
  | .timeout => (st.keys "invocations").inFlight = true → ∀ p ∈ st.invocationsWaiters,
      ∃ f ∈ (st.keys "invocations").settled, p ≤ f.beganAt
  | _ => True

/-- The guards, and the calls that wait for the debounce. -/
structure Inv : Prop where
  keys : ∀ key, (st.keys key).Inv st.now
  waiters : ∀ p ∈ st.invocationsWaiters, p < st.now

variable {st} {st' : RefreshState ν} {key : String}

theorem inv_init (slices : String → ν) : (init slices).Inv := ⟨fun _ => RefreshKey.inv_init _, nofun⟩

/-- One key takes a step, and time passes for the others. -/
theorem Inv.put {k : RefreshKey ν} (h : st.Inv) (hk : k.Inv (st.now + 1)) : (st.put key k).Inv := by
  refine ⟨fun key' => ?_, fun p hp => Nat.lt_succ_of_lt (h.waiters p hp)⟩
  show (Function.update st.keys key k key').Inv (st.now + 1)
  by_cases hkey : key' = key
  · subst hkey
    rwa [Function.update_self]
  · rw [Function.update_of_ne hkey]
    exact (h.keys key').later

theorem Inv.step {a : RefreshAction ν} (h : st.Inv) (hs : step st a = some st') : st'.Inv := by
  rcases a with key | ⟨key, i, response⟩ | ⟨key, i⟩ | _ | _
  · cases hs
    refine h.put ((h.keys key).guardedRefresh fun p hp => ?_)
    exact Nat.le_of_eq (List.mem_singleton.1 hp)
  · obtain ⟨k, hk, rfl⟩ := Option.map_eq_some_iff.1 hs
    exact h.put ((h.keys key).respond hk)
  · obtain ⟨k, hk, rfl⟩ := Option.map_eq_some_iff.1 hs
    exact h.put ((h.keys key).resume hk)
  · cases hs
    refine ⟨fun key => (h.keys key).later, fun p hp => ?_⟩
    rcases List.mem_append.1 hp with hp | hp
    · exact Nat.lt_succ_of_lt (h.waiters p hp)
    · rw [List.mem_singleton.1 hp]
      exact Nat.lt_succ_self _
  · obtain ⟨-, ⟨⟩⟩ := Option.ite_none_right_eq_some.1 hs
    have hp : (st.put "invocations" _).Inv :=
      h.put ((h.keys "invocations").guardedRefresh fun p hp => Nat.le_of_lt (h.waiters p hp))
    exact ⟨hp.keys, nofun⟩

theorem put_keys_of_ne {k : RefreshKey ν} {key' : String} (h : key' ≠ key) :
    (st.put key k).keys key' = st.keys key' := Function.update_of_ne h _ _

theorem put_keys_self {k : RefreshKey ν} : (st.put key k).keys key = k := Function.update_self _ _ _

theorem independent (st : RefreshState ν) : st.Independent := by
  intro a st' hs key' hkey
  rcases a with key | ⟨key, i, response⟩ | ⟨key, i⟩ | _ | _
  · cases hs
    exact put_keys_of_ne fun h => hkey (congrArg some h.symm)
  · obtain ⟨k, -, rfl⟩ := Option.map_eq_some_iff.1 hs
    exact put_keys_of_ne fun h => hkey (congrArg some h.symm)
  · obtain ⟨k, -, rfl⟩ := Option.map_eq_some_iff.1 hs
    exact put_keys_of_ne fun h => hkey (congrArg some h.symm)
  · cases hs
    rfl
  · obtain ⟨-, ⟨⟩⟩ := Option.ite_none_right_eq_some.1 hs
    exact put_keys_of_ne fun h => hkey (congrArg some h.symm)

/-- Each completion leaves one step less to take. -/
theorem Inv.work_step {a : RefreshAction ν} (h : st.Inv) (ha : Completes key a)
    (hs : RefreshState.step st a = some st') : (st'.keys key).work + 1 = (st.keys key).work := by
  rcases a with key' | ⟨key', i, response⟩ | ⟨key', i⟩ | _ | _
  · cases ha
  · obtain rfl : key' = key := ha
    obtain ⟨k, hk, rfl⟩ := Option.map_eq_some_iff.1 hs
    rw [put_keys_self]
    exact (h.keys key').work_respond hk
  · obtain rfl : key' = key := ha
    obtain ⟨k, hk, rfl⟩ := Option.map_eq_some_iff.1 hs
    rw [put_keys_self]
    exact (h.keys key').work_resume hk
  · cases ha
  · cases ha

theorem Inv.work_run (h : st.Inv) {as : List (RefreshAction ν)} (has : ∀ a ∈ as, Completes key a)
    (hr : Runs.run RefreshState.step st as = some st') :
    as.length + (st'.keys key).work = (st.keys key).work := by
  induction as generalizing st with
  | nil =>
    cases hr
    exact Nat.zero_add _
  | cons a as ih =>
    rw [Runs.run_cons, Option.bind_eq_some_iff] at hr
    obtain ⟨st₁, hs, hr⟩ := hr
    have hrest := ih (h.step hs) (fun b hb => has b (List.mem_cons_of_mem _ hb)) hr
    have hone := h.work_step (has a List.mem_cons_self) hs
    rw [List.length_cons]
    omega

theorem Inv.notBlocked (h : st.Inv) (key : String) : st.NotBlocked key := by
  have hloops : (st.keys key).loops = [] ↔ (st.keys key).inFlight = false := by
    constructor
    · intro hl
      by_contra hin
      obtain ⟨l, hl', -⟩ := (h.keys key).busy (by simpa using hin)
      rw [hl] at hl'
      cases hl'
    · exact fun hin => ((h.keys key).idle hin).1
  refine ⟨(h.keys key).work_eq_zero.trans hloops.symm, fun hl => ?_, fun as st' has hr =>
    h.work_run has hr⟩
  rw [ne_eq, hloops, Bool.not_eq_false] at hl
  rcases (h.keys key).goes_on hl with hs | hs
  · exact ⟨.respond key 0 none, rfl, by rwa [RefreshState.step, Option.isSome_map]⟩
  · exact ⟨.resume key 0, rfl, by rwa [RefreshState.step, Option.isSome_map]⟩

theorem Inv.guarded (h : st.Inv) : st.Guarded where
  oneInFlight key := (h.keys key).oneInFlight
  writesCurrent key := (h.keys key).writes
  endsFresh key := (h.keys key).fresh
  notBlocked := h.notBlocked
  independent := RefreshState.independent st

theorem kept_put {k : RefreshKey ν} (h : st.Kept) : (st.put key k).Kept ↔ k.Kept := by
  constructor
  · intro hk
    have hkey := hk key
    rwa [put_keys_self] at hkey
  · intro hk key'
    by_cases hkey : key' = key
    · subst hkey
      rwa [put_keys_self]
    · rw [put_keys_of_ne hkey]
      exact h key'

/-- The promises are kept by the steps that come in turn, and by no others. -/
theorem kept_step {a : RefreshAction ν} (h : st.Inv) (hk : st.Kept) (hs : step st a = some st') :
    st'.Kept ↔ st.InTurn a := by
  rcases a with key | ⟨key, i, response⟩ | ⟨key, i⟩ | _ | _
  · cases hs
    rw [kept_put hk, RefreshKey.kept_guardedRefresh (hk key), InTurn, ← Bool.not_eq_true]
    refine imp_congr_right fun hin => iff_of_false (fun hp => ?_) id
    -- no fetch began since
    obtain ⟨f, hf, hle⟩ := hp st.now List.mem_cons_self
    have := ((h.keys key).settledPast f hf).2
    omega
  · obtain ⟨k, hr, rfl⟩ := Option.map_eq_some_iff.1 hs
    exact iff_of_true ((kept_put hk).2 ((hk key).respond hr)) trivial
  · obtain ⟨k, hr, rfl⟩ := Option.map_eq_some_iff.1 hs
    exact iff_of_true ((kept_put hk).2 ((hk key).resume (h.keys key) hr)) trivial
  · cases hs
    exact iff_of_true hk trivial
  · obtain ⟨-, ⟨⟩⟩ := Option.ite_none_right_eq_some.1 hs
    exact (kept_put hk).trans (RefreshKey.kept_guardedRefresh (hk "invocations"))

/-- Every run ends on fresh data, and its promises are kept exactly if its calls come in turn. -/
theorem guarded_refreshes (slices : String → ν) (as : List (RefreshAction ν)) :
    (∀ st, Runs.run step (init slices) as = some st → st.Guarded) ∧
      (Runs.Throughout step Kept (init slices) as ↔ Runs.Along step InTurn (init slices) as) :=
  ⟨fun _ hr => (Runs.run_keeps (fun _ _ _ => Inv.step) (inv_init slices) hr).guarded,
    Runs.throughout_iff (fun _ _ _ => Inv.step) (fun _ _ _ => kept_step) (inv_init slices)
      (fun _ _ hp => (List.not_mem_nil hp).elim) as⟩

/-- The debounce ends while a fetch from before the call is in flight. -/
theorem debounced_promise_early : ¬∀ (as : List (RefreshAction ℕ)) (st : RefreshState ℕ),
    Runs.run step (init fun _ => 0) as = some st → st.Kept := by
  intro h
  obtain ⟨st, hr, hresolved, hsettled⟩ : ∃ st ∈ Runs.run step (init fun _ => 0)
      ([.refreshInvocations, .timeout, .refreshInvocations, .timeout] : List (RefreshAction ℕ)),
      (st.keys "invocations").resolved = [2] ∧ (st.keys "invocations").settled = [] := by
    decide +kernel
  obtain ⟨f, hf, -⟩ := h _ st hr "invocations" 2 (by simp [hresolved])
  rw [hsettled] at hf
  cases hf

end RefreshState

end BuilderPro
