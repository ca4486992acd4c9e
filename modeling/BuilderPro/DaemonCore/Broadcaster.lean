import BuilderPro.Lib.Runs

/-!
# Pushes to every client

Both daemons hand each client a bounded queue that one writer drains.  A broadcast skips a queue
that is full; a reply, and in `sessiond` the forwarder of the attach output, end the connection
when they find it so.  No push is lost on a connection that stays up in every run in which nothing is
taken off or put on a queue between a skipped push and the end of its connection, and in no other
(`noPushLost_iff`).
-/

namespace BuilderPro

inductive DaemonKind
  | sessiond
  | orchd
  deriving DecidableEq

/-- The depth of a client's queue, in either daemon. -/
def clientOutqCap : ℕ := 1024

/-- A frame for a client: the reply to a request, a push that is broadcast, or one of the client's
own attachments. -/
inductive OutFrame (Push : Type*)
  | response (id : ℕ)
  | broadcast (p : Push)
  | attach (p : Push)
  deriving DecidableEq

inductive TrySend
  | ok
  | full
  | closed
  deriving DecidableEq

/-- A connected client: whether it is registered for broadcasts, its dispatch loop runs, its writer
runs, the forwarder of its attach output runs, and that forwarder's overflow has been notified.
The pushes broadcast since it registered, whether one of its pushes could not be queued, and the
frames that were queued after that are followed beside. -/
structure ClientConn (Push : Type*) where
  registered : Bool
  running : Bool
  writing : Bool
  forwarding : Bool
  overflow : Bool
  queue : List (OutFrame Push)
  sent : List (OutFrame Push)
  since : List Push
  gap : Bool
  late : List (OutFrame Push)
  deriving DecidableEq

inductive ClientAct (Push : Type*)
  | reply (id : ℕ)
  | forward (p : Push)
  | notice
  | leave
  | deregister
  | write
  | stopWriter
  deriving DecidableEq

variable {Push : Type*}

/-- The pushes among some frames that were broadcast. -/
def broadcasts (fs : List (OutFrame Push)) : List Push :=
  fs.filterMap fun f =>
    match f with
    | .broadcast p => some p
    | _ => none

@[simp] theorem broadcasts_append (fs gs : List (OutFrame Push)) :
    broadcasts (fs ++ gs) = broadcasts fs ++ broadcasts gs := by
  simp [broadcasts]

namespace ClientConn

variable (c : ClientConn Push)

/-- A client whose handshake has been accepted. -/
def connected (d : DaemonKind) : ClientConn Push :=
  ⟨true, true, true, d = .sessiond, false, [], [], [], false, []⟩

/-- What `try_send` finds. -/
def trySend : TrySend :=
  if c.writing then if c.queue.length < clientOutqCap then .ok else .full else .closed

def enqueue (f : OutFrame Push) : ClientConn Push :=
  { c with
    queue := c.queue ++ [f]
    late := if c.gap then c.late ++ [f] else c.late }

/-- A broadcast's share of the client: a full or closed queue is skipped. -/
def offer (p : Push) : ClientConn Push :=
  let c := { c with since := c.since ++ [p] }
  if c.registered then
    match c.trySend with
    | .ok => c.enqueue (.broadcast p)
    | _ => { c with gap := true }
  else c

/-- A step of one client's connection. -/
def step : ClientAct Push → Option (ClientConn Push)
  | .reply id =>
    if c.running then
      match c.trySend with
      | .ok => some (c.enqueue (.response id))
      | _ => some { c with running := false }
    else none
  | .forward p =>
    if c.forwarding then
      match c.trySend with
      | .ok => some (c.enqueue (.attach p))
      | .full => some { c with forwarding := false, overflow := true, gap := true }
      | .closed => some { c with forwarding := false, gap := true }
    else none
  -- the loop's turns that end it: the forwarder's overflow, a close, an error or a shutdown
  | .notice => if c.running ∧ c.overflow then some { c with running := false } else none
  | .leave => if c.running then some { c with running := false } else none
  | .deregister => if c.running then none else some { c with registered := false }
  | .write =>
    match c.writing, c.queue with
    | true, f :: queue => some { c with queue := queue, sent := c.sent ++ [f] }
    | _, _ => none
  | .stopWriter => if c.writing then some { c with writing := false, queue := [] } else none

/-- Whether the pushes the client is sent are in order the first of those broadcast since it
registered, it is sent nothing once one of its pushes could not be queued, and it is then to be
disconnected by the next frame for it, if it is not already. -/
structure NoPushLost : Prop where
  inOrder : broadcasts (c.sent ++ c.queue) <+: c.since
  late : c.late = []
  disconnects : c.gap = true → c.running = true → c.overflow = true ∨ c.trySend ≠ .ok

/-- Whether a broadcast finds no room in the queue of a client one of whose pushes could not be
queued. -/
def OfferInTurn : Prop :=
  c.gap = true → c.registered = true → c.trySend ≠ .ok

instance : Decidable c.OfferInTurn := inferInstanceAs (Decidable (_ → _))

/-- Whether, once one of the client's pushes could not be queued, a reply or attach output finds no
room in its queue, and the writer takes nothing off it while the loop runs with no notice. -/
def InTurn : ClientAct Push → Prop
  | .reply _ => c.gap = true → c.trySend ≠ .ok
  | .forward _ => c.gap = true → c.trySend ≠ .ok
  | .write => c.gap = true → c.running = true → c.overflow = true
  | _ => True

instance (a : ClientAct Push) : Decidable (c.InTurn a) := by
  unfold InTurn
  split <;> infer_instance

/-- A client that is registered, has its writer and has missed nothing has been sent, or has in its
queue, all that was broadcast. -/
structure ConnInv : Prop where
  cap : c.queue.length ≤ clientOutqCap
  whole : c.writing = true → c.registered = true → c.gap = false →
    broadcasts (c.sent ++ c.queue) = c.since

variable {c} {c' : ClientConn Push} {a : ClientAct Push} {p : Push} {f : OutFrame Push}

theorem trySend_eq_ok_iff :
    c.trySend = .ok ↔ c.writing = true ∧ c.queue.length < clientOutqCap := by
  unfold trySend
  split_ifs with hw hq
  · simp [hw, hq]
  · simp [hq]
  · simp [hw]

theorem connInv_connected (d : DaemonKind) : (connected d : ClientConn Push).ConnInv :=
  ⟨Nat.zero_le _, fun _ _ _ => rfl⟩

theorem noPushLost_connected (d : DaemonKind) : (connected d : ClientConn Push).NoPushLost :=
  ⟨List.nil_prefix, rfl, fun h => by cases h⟩

/-- A frame that is no broadcast is queued. -/
theorem ConnInv.enqueue (hI : c.ConnInv) (hok : c.trySend = .ok) (hf : broadcasts [f] = []) :
    (c.enqueue f).ConnInv := by
  obtain ⟨hw, hq⟩ := trySend_eq_ok_iff.1 hok
  refine ⟨?_, fun hw hr hg => ?_⟩
  · simp only [ClientConn.enqueue, List.length_append, List.length_singleton]
    omega
  · have hwhole := hI.whole hw hr hg
    simp only [ClientConn.enqueue, ← List.append_assoc, broadcasts_append, hf, List.append_nil]
    rw [← broadcasts_append, hwhole]

theorem offer_of_ok (hr : c.registered = true) (hok : c.trySend = .ok) (p : Push) :
    c.offer p = ClientConn.enqueue { c with since := c.since ++ [p] } (.broadcast p) := by
  unfold offer
  dsimp only
  rw [if_pos hr, show ClientConn.trySend { c with since := c.since ++ [p] } = .ok from hok]

theorem offer_of_not_ok (hr : c.registered = true) (hok : c.trySend ≠ .ok) (p : Push) :
    c.offer p = { c with since := c.since ++ [p], gap := true } := by
  unfold offer
  dsimp only
  rw [if_pos hr]
  split
  · exact absurd ‹_› hok
  · rfl

theorem connInv_offer (hI : c.ConnInv) (p : Push) : (c.offer p).ConnInv := by
  by_cases hr : c.registered = true
  · by_cases hok : c.trySend = .ok
    · rw [offer_of_ok hr hok]
      obtain ⟨-, hq⟩ := trySend_eq_ok_iff.1 hok
      refine ⟨?_, fun hw hr hg => ?_⟩
      · simp only [ClientConn.enqueue, List.length_append, List.length_singleton]
        exact hq
      · have hwhole := hI.whole hw hr hg
        simp only [ClientConn.enqueue, ← List.append_assoc]
        rw [broadcasts_append, hwhole]
        rfl
    · rw [offer_of_not_ok hr hok]
      exact ⟨hI.cap, fun _ _ hg => by cases hg⟩
  · rw [show c.offer p = { c with since := c.since ++ [p] } from if_neg hr]
    exact ⟨hI.cap, fun _ h => absurd h hr⟩

/-- A step that leaves the queue as it is, and what is followed: a registration and a loop may end,
and a push that cannot be queued leaves its notice or finds the queue closed. -/
structure KeepsQueue (c c' : ClientConn Push) : Prop where
  queue : c'.queue = c.queue
  sent : c'.sent = c.sent
  writing : c'.writing = c.writing
  since : c'.since = c.since
  late : c'.late = c.late
  registered : c'.registered = true → c.registered = true
  running : c'.running = true → c.running = true
  overflow : c.overflow = true → c'.overflow = true
  gap : c'.gap = false → c.gap = false
  noticed : c.gap = false → c'.gap = true → c'.overflow = true ∨ c.trySend ≠ .ok

/-- What a step of a client does: a frame that is no broadcast finds room in the queue, the writer
takes one off, the writer goes, or the queue stays. -/
inductive Effect (c c' : ClientConn Push) : ClientAct Push → Prop
  | enqueue (a : ClientAct Push) (f : OutFrame Push) (hf : broadcasts [f] = [])
      (hok : c.trySend = .ok) (hturn : c.InTurn a ↔ (c.gap = true → c.trySend ≠ .ok))
      (heq : c' = c.enqueue f) : Effect c c' a
  | write (f : OutFrame Push) (queue : List (OutFrame Push)) (hw : c.writing = true)
      (hq : c.queue = f :: queue)
      (heq : c' = { c with queue := queue, sent := c.sent ++ [f] }) : Effect c c' .write
  | stopWriter (heq : c' = { c with writing := false, queue := [] }) : Effect c c' .stopWriter
  | keeps (a : ClientAct Push) (hturn : c.InTurn a) (h : KeepsQueue c c') : Effect c c' a

theorem effect_of_step (h : c.step a = some c') : Effect c c' a := by
  cases a with
  | reply id =>
    simp only [step, Option.ite_none_right_eq_some] at h
    obtain ⟨hrunning, h⟩ := h
    by_cases hok : c.trySend = .ok
    · simp only [hok, Option.some.injEq] at h
      exact .enqueue _ _ rfl hok Iff.rfl h.symm
    · split at h
      · exact absurd ‹_› hok
      · cases h
        exact .keeps _ (fun _ => hok) ⟨rfl, rfl, rfl, rfl, rfl, fun h => h, fun h => (by cases h),
          fun h => h, fun h => h, fun h h' => by simp [h] at h'⟩
  | forward p =>
    simp only [step, Option.ite_none_right_eq_some] at h
    obtain ⟨hforwarding, h⟩ := h
    split at h
    · rename_i hok
      exact .enqueue _ _ rfl hok Iff.rfl (Option.some.inj h).symm
    · rename_i hfull
      cases h
      exact .keeps _ (fun _ => by simp [hfull]) ⟨rfl, rfl, rfl, rfl, rfl, fun h => h, fun h => h,
        fun _ => rfl, fun h => (by cases h), fun _ _ => .inl rfl⟩
    · rename_i hclosed
      cases h
      have hnot : c.trySend ≠ .ok := by simp [hclosed]
      exact .keeps _ (fun _ => hnot) ⟨rfl, rfl, rfl, rfl, rfl, fun h => h, fun h => h, fun h => h,
        fun h => (by cases h), fun _ _ => .inr hnot⟩
  | notice =>
    simp only [step, Option.ite_none_right_eq_some, Option.some.injEq] at h
    obtain ⟨-, rfl⟩ := h
    exact .keeps _ trivial ⟨rfl, rfl, rfl, rfl, rfl, fun h => h, fun h => (by cases h), fun h => h,
      fun h => h, fun h h' => by simp [h] at h'⟩
  | leave =>
    simp only [step, Option.ite_none_right_eq_some, Option.some.injEq] at h
    obtain ⟨-, rfl⟩ := h
    exact .keeps _ trivial ⟨rfl, rfl, rfl, rfl, rfl, fun h => h, fun h => (by cases h), fun h => h,
      fun h => h, fun h h' => by simp [h] at h'⟩
  | deregister =>
    simp only [step, Option.ite_none_left_eq_some, Option.some.injEq] at h
    obtain ⟨-, rfl⟩ := h
    exact .keeps _ trivial ⟨rfl, rfl, rfl, rfl, rfl, fun h => (by cases h), fun h => h, fun h => h,
      fun h => h, fun h h' => by simp [h] at h'⟩
  | write =>
    simp only [step] at h
    split at h
    · rename_i f queue hw hq
      exact .write f queue hw hq (Option.some.inj h).symm
    · cases h
  | stopWriter =>
    simp only [step, Option.ite_none_right_eq_some, Option.some.injEq] at h
    exact .stopWriter h.2.symm

theorem KeepsQueue.trySend_eq (h : KeepsQueue c c') : c'.trySend = c.trySend := by
  unfold ClientConn.trySend
  rw [h.writing, h.queue]

theorem connInv_step (hI : c.ConnInv) (h : c.step a = some c') : c'.ConnInv := by
  cases effect_of_step h with
  | enqueue _ f hf hok _ heq =>
    subst heq
    exact hI.enqueue hok hf
  | write f queue hw hq heq =>
    subst heq
    have hcap := hI.cap
    refine ⟨?_, fun hw hr hg => ?_⟩
    · rw [hq, List.length_cons] at hcap
      dsimp only
      omega
    · simpa [hq] using hI.whole hw hr hg
  | stopWriter heq =>
    subst heq
    exact ⟨Nat.zero_le _, fun hw => by cases hw⟩
  | keeps _ _ h =>
    refine ⟨h.queue ▸ hI.cap, fun hw hr hg => ?_⟩
    rw [h.sent, h.queue, h.since]
    exact hI.whole (h.writing ▸ hw) (h.registered hr) (h.gap hg)

theorem noPushLost_step_iff (hI : c.ConnInv) (hP : c.NoPushLost) (h : c.step a = some c') :
    c'.NoPushLost ↔ c.InTurn a := by
  cases effect_of_step h with
  | enqueue _ f hf hok hturn heq =>
    subst heq
    rw [hturn]
    constructor
    · intro h hgap
      simpa [ClientConn.enqueue, hgap] using h.late
    · intro hturn
      have hgap : c.gap = false := by
        by_contra hgap
        exact hturn (by simpa using hgap) hok
      refine ⟨?_, ?_, fun h => ?_⟩
      · simp only [ClientConn.enqueue, ← List.append_assoc]
        rw [broadcasts_append, hf, List.append_nil]
        exact hP.inOrder
      · simp [ClientConn.enqueue, hgap, hP.late]
      · rw [show (c.enqueue f).gap = c.gap from rfl, hgap] at h
        cases h
  | write f queue hw hq heq =>
    subst heq
    have hcap := hI.cap
    rw [hq, List.length_cons] at hcap
    have hroom : ClientConn.trySend { c with queue := queue, sent := c.sent ++ [f] } = .ok :=
      trySend_eq_ok_iff.2 ⟨hw, by dsimp only; omega⟩
    constructor
    · intro h hgap hrunning
      exact (h.disconnects hgap hrunning).resolve_right fun h => h hroom
    · intro hturn
      refine ⟨?_, hP.late, fun hgap hrunning => .inl (hturn hgap hrunning)⟩
      simpa [hq] using hP.inOrder
  | stopWriter heq =>
    subst heq
    refine iff_of_true ⟨?_, hP.late, fun _ _ => .inr ?_⟩ trivial
    · rw [List.append_nil]
      have hprefix := hP.inOrder
      rw [broadcasts_append] at hprefix
      exact (List.prefix_append _ _).trans hprefix
    · simp [ClientConn.trySend]
  | keeps _ hturn h =>
    refine iff_of_true ⟨?_, h.late.trans hP.late, fun hgap hrunning => ?_⟩ hturn
    · rw [h.sent, h.queue, h.since]
      exact hP.inOrder
    · rw [h.trySend_eq]
      by_cases hg : c.gap = true
      · exact (hP.disconnects hg (h.running hrunning)).imp_left h.overflow
      · exact h.noticed (by simpa using hg) hgap

theorem noPushLost_offer_iff (hI : c.ConnInv) (hP : c.NoPushLost) (p : Push) :
    (c.offer p).NoPushLost ↔ c.OfferInTurn := by
  have hsince : broadcasts (c.sent ++ c.queue) <+: c.since ++ [p] :=
    hP.inOrder.trans (List.prefix_append _ _)
  by_cases hr : c.registered = true
  · by_cases hok : c.trySend = .ok
    · rw [offer_of_ok hr hok]
      constructor
      · intro h hgap
        simpa [ClientConn.enqueue, hgap] using h.late
      · intro hturn
        have hgap : c.gap = false := by
          by_contra hgap
          exact hturn (by simpa using hgap) hr hok
        refine ⟨?_, ?_, fun h => ?_⟩
        · have hwhole := hI.whole (trySend_eq_ok_iff.1 hok).1 hr hgap
          simp only [ClientConn.enqueue, ← List.append_assoc]
          rw [broadcasts_append, hwhole]
          exact List.prefix_rfl
        · simp [ClientConn.enqueue, hgap, hP.late]
        · rw [show (ClientConn.enqueue { c with since := c.since ++ [p] } (.broadcast p)).gap
            = c.gap from rfl, hgap] at h
          cases h
    · rw [offer_of_not_ok hr hok]
      exact iff_of_true ⟨hsince, hP.late, fun _ _ => .inr hok⟩ fun _ _ => hok
  · rw [show c.offer p = { c with since := c.since ++ [p] } from if_neg hr]
    exact iff_of_true ⟨hsince, hP.late, hP.disconnects⟩ fun _ h => absurd h hr

end ClientConn

/-- A daemon's clients, by the number of their connection. -/
abbrev Fanout (Push : Type*) := List (ClientConn Push)

inductive FanoutAct (Push : Type*)
  | connect
  | broadcast (p : Push)
  | client (i : ℕ) (a : ClientAct Push)
  deriving DecidableEq

namespace Fanout

def step (d : DaemonKind) (s : Fanout Push) : FanoutAct Push → Option (Fanout Push)
  | .connect => some (s ++ [.connected d])
  | .broadcast p => some (s.map fun c => c.offer p)
  | .client i a => s[i]?.bind fun c => (c.step a).map (s.set i)

def NoPushLost (s : Fanout Push) : Prop := ∀ c ∈ s, c.NoPushLost

def InTurn (s : Fanout Push) : FanoutAct Push → Prop
  | .connect => True
  | .broadcast _ => ∀ c ∈ s, c.OfferInTurn
  | .client i a => ∀ c ∈ s[i]?, c.InTurn a

instance (s : Fanout Push) (a : FanoutAct Push) : Decidable (s.InTurn a) := by
  unfold InTurn
  split <;> infer_instance

variable {d : DaemonKind} {s t : Fanout Push} {a : FanoutAct Push}

/-- A step of one client rewrites that client alone. -/
theorem step_client {i : ℕ} {b : ClientAct Push} (h : s.step d (.client i b) = some t) :
    ∃ c c', s[i]? = some c ∧ c.step b = some c' ∧ t = s.set i c' := by
  obtain ⟨c, hc, h⟩ := Option.bind_eq_some_iff.1 h
  obtain ⟨c', hc', rfl⟩ := Option.map_eq_some_iff.1 h
  exact ⟨c, c', hc, hc', rfl⟩

theorem forall_set_iff {P : ClientConn Push → Prop} {i : ℕ} {c c' : ClientConn Push}
    (hs : ∀ c ∈ s, P c) (hc : s[i]? = some c) : (∀ b ∈ s.set i c', P b) ↔ P c' := by
  constructor
  · exact fun h => h c' (List.mem_set (List.getElem?_eq_some_iff.1 hc).1 c')
  · intro h b hb
    rcases List.mem_or_eq_of_mem_set hb with hb | rfl
    · exact hs b hb
    · exact h

theorem connInv_step (hI : ∀ c ∈ s, c.ConnInv) (h : s.step d a = some t) :
    ∀ c ∈ t, c.ConnInv := by
  cases a with
  | connect =>
    cases h
    intro c hc
    rcases List.mem_append.1 hc with hc | hc
    · exact hI c hc
    · obtain rfl := List.mem_singleton.1 hc
      exact ClientConn.connInv_connected d
  | broadcast p =>
    cases h
    intro c hc
    obtain ⟨b, hb, rfl⟩ := List.mem_map.1 hc
    exact ClientConn.connInv_offer (hI b hb) p
  | client i b =>
    obtain ⟨c, c', hc, hstep, rfl⟩ := step_client h
    exact (forall_set_iff hI hc).2
      (ClientConn.connInv_step (hI c (List.mem_of_getElem? hc)) hstep)

theorem noPushLost_step_iff (hI : ∀ c ∈ s, c.ConnInv) (hP : s.NoPushLost)
    (h : s.step d a = some t) : t.NoPushLost ↔ s.InTurn a := by
  cases a with
  | connect =>
    cases h
    refine iff_of_true (fun c hc => ?_) trivial
    rcases List.mem_append.1 hc with hc | hc
    · exact hP c hc
    · obtain rfl := List.mem_singleton.1 hc
      exact ClientConn.noPushLost_connected d
  | broadcast p =>
    cases h
    unfold NoPushLost InTurn
    rw [List.forall_mem_map]
    exact forall₂_congr fun c hc => ClientConn.noPushLost_offer_iff (hI c hc) (hP c hc) p
  | client i b =>
    obtain ⟨c, c', hc, hstep, rfl⟩ := step_client h
    have hmem := List.mem_of_getElem? hc
    have hturn : InTurn s (.client i b) ↔ c.InTurn b := by simp [InTurn, hc]
    unfold NoPushLost
    rw [hturn, forall_set_iff hP hc]
    exact ClientConn.noPushLost_step_iff (hI c hmem) (hP c hmem) hstep

/-- For both daemons, and however broadcasts, replies, attach output, the writers and the clients'
connections interleave: no push is lost on a connection that stays up exactly in the runs whose
steps neither put on a client's queue nor, while its loop runs unnoticed, take off it anything once
one of its pushes could not be queued. -/
theorem noPushLost_iff (d : DaemonKind) (as : List (FanoutAct Push)) :
    Runs.Throughout (step d) NoPushLost [] as ↔ Runs.Along (step d) InTurn [] as :=
  Runs.throughout_iff (I := fun s => ∀ c ∈ s, c.ConnInv) (fun _ _ _ hI h => connInv_step hI h)
    (fun _ _ _ hI hP h => noPushLost_step_iff hI hP h) (by simp) (by simp [NoPushLost]) as

/-- Broadcasts for which a client has room. -/
theorem run_broadcasts {c : ClientConn Push} (hr : c.registered = true) (hw : c.writing = true)
    (hg : c.gap = false) (ps : List Push) (hroom : c.queue.length + ps.length ≤ clientOutqCap) :
    Runs.run (step d) [c] (ps.map .broadcast) = some [{ c with
      queue := c.queue ++ ps.map .broadcast
      since := c.since ++ ps }] := by
  induction ps generalizing c with
  | nil => simp
  | cons p ps ih =>
    rw [List.length_cons] at hroom
    have hok : c.trySend = .ok := ClientConn.trySend_eq_ok_iff.2 ⟨hw, by omega⟩
    have hoffer : c.offer p = { c with
        queue := c.queue ++ [.broadcast p]
        since := c.since ++ [p] } := by
      rw [ClientConn.offer_of_ok hr hok]
      simp [ClientConn.enqueue, hg]
    have hstep : step d [c] (.broadcast p) = some [c.offer p] := rfl
    have hrun := @ih (c.offer p) (by rw [hoffer]; exact hr) (by rw [hoffer]; exact hw)
      (by rw [hoffer]; exact hg) (by rw [hoffer, List.length_append, List.length_singleton]; omega)
    rw [List.map_cons, Runs.run_cons, hstep, Option.bind_some, hrun, hoffer]
    simp

/-- A push finds the queue full, the writer takes a frame, and the next push finds room again. -/
theorem run_skip {c : ClientConn Push} (hr : c.registered = true) (hw : c.writing = true)
    {f : OutFrame Push} {queue : List (OutFrame Push)} (hq : c.queue = f :: queue)
    (hfull : c.queue.length = clientOutqCap) (p r : Push) :
    Runs.run (step d) [c] [.broadcast p, .client 0 .write, .broadcast r] = some [{ c with
      queue := queue ++ [.broadcast r]
      sent := c.sent ++ [f]
      since := c.since ++ [p] ++ [r]
      gap := true
      late := c.late ++ [.broadcast r] }] := by
  have hlength : queue.length + 1 = clientOutqCap := by rw [← hfull, hq, List.length_cons]
  have hskip : c.offer p = { c with since := c.since ++ [p], gap := true } :=
    ClientConn.offer_of_not_ok hr (fun h => by
      have hroom := (ClientConn.trySend_eq_ok_iff.1 h).2
      omega) p
  have hwrite : (c.offer p).step .write = some { c with
      queue := queue, sent := c.sent ++ [f], since := c.since ++ [p], gap := true } := by
    rw [hskip]
    simp only [ClientConn.step, hw, hq]
  have hoffer := @ClientConn.offer_of_ok _ { c with
      queue := queue, sent := c.sent ++ [f], since := c.since ++ [p], gap := true } hr
    (ClientConn.trySend_eq_ok_iff.2 ⟨hw, by dsimp only; omega⟩) r
  have hfirst : step d [c] (.broadcast p) = some [c.offer p] := rfl
  have hsecond : step d [c.offer p] (.client 0 .write) = some [{ c with
      queue := queue, sent := c.sent ++ [f], since := c.since ++ [p], gap := true }] := by
    simp only [step, List.getElem?_cons_zero, Option.bind_some, hwrite]
    rfl
  rw [Runs.run_cons, hfirst, Option.bind_some, Runs.run_cons, hsecond, Option.bind_some,
    Runs.run_cons]
  simp only [step, List.map_cons, List.map_nil, hoffer]
  rfl

/-- More pushes than the queue holds come at once; the writer takes one frame, and one more push
comes. -/
def slowClient : List (FanoutAct ℕ) :=
  .connect :: (List.range clientOutqCap).map .broadcast
    ++ [.broadcast clientOutqCap, .client 0 .write, .broadcast (clientOutqCap + 1)]

/-- The client when its queue is full. -/
def fullClient : ClientConn ℕ :=
  { ClientConn.connected .orchd with
    queue := (List.range clientOutqCap).map .broadcast
    since := List.range clientOutqCap }

theorem skipped_push_goes_unnoticed : ∃ c, Runs.run (step .orchd) [] slowClient = some [c]
    ∧ c.running = true ∧ c.gap = true ∧ c.late = [.broadcast (clientOutqCap + 1)]
    ∧ ¬NoPushLost [c] := by
  have hfill : Runs.run (step .orchd) [.connected .orchd]
      ((List.range clientOutqCap).map .broadcast) = some [fullClient] := by
    rw [run_broadcasts rfl rfl rfl _ (by simp [ClientConn.connected])]
    simp only [fullClient, ClientConn.connected, List.nil_append]
  have hrange : List.range clientOutqCap = 0 :: List.range' 1 1023 := by
    rw [List.range_eq_range']
    exact List.range'_succ
  have hqueue : fullClient.queue = .broadcast 0 :: (List.range' 1 1023).map .broadcast := by
    rw [fullClient, hrange, List.map_cons]
  have hskip := @run_skip _ .orchd fullClient rfl rfl _ _ hqueue (by simp [fullClient])
    clientOutqCap (clientOutqCap + 1)
  have hrun : Runs.run (step .orchd) [] slowClient = Runs.run (step .orchd) [fullClient]
      [.broadcast clientOutqCap, .client 0 .write, .broadcast (clientOutqCap + 1)] := by
    have hconnect : step .orchd ([] : Fanout ℕ) .connect = some [.connected .orchd] := rfl
    rw [slowClient, List.cons_append, Runs.run_cons, hconnect, Option.bind_some, Runs.run_append,
      hfill, Option.bind_some]
  refine ⟨_, hrun.trans hskip, rfl, rfl, rfl, fun h => ?_⟩
  cases (h _ (List.mem_singleton_self _)).late

end Fanout

end BuilderPro
