import BuilderPro.Lib.Runs
import BuilderPro.Lib.Slots
import Mathlib.Logic.Function.Basic

/-!
# The attach channels of the broker

`attach_session`, `detach_session` and `kill_session` share one map from sessions to channels.  Each
changes it apart from its request: an attach registers its channel before, a failed attach and an
acknowledged detach or kill remove whatever is there after.  The last attach the daemon has
acknowledged keeps its channel as long as no command changes the entry out of turn
(`keepsChannel_of_inTurn`).
-/

namespace BuilderPro

/-- A `Channel<TerminalEvent>`, by its number. -/
abbrev Channel := ℕ

inductive TerminalEvent
  | replay (cols rows : ℕ) (content : List UInt8)
  | output (bytes : List UInt8)
  deriving DecidableEq

/-- The broker's attachment map. -/
structure Broker where
  attachments : String → Option Channel

namespace Broker

variable (b : Broker)

def registerAttachment (session : String) (ch : Channel) : Broker :=
  ⟨Function.update b.attachments session (some ch)⟩

def removeAttachment (session : String) : Broker :=
  ⟨Function.update b.attachments session none⟩

/-- Where a `Replay` or an `Output` of a session goes; it is dropped when nothing is attached. -/
def dispatchPush (session : String) (ev : TerminalEvent) : Option (Channel × TerminalEvent) :=
  (b.attachments session).map fun ch => (ch, ev)

end Broker

inductive SessionCmd
  | attachSession (onEvent : Channel)
  | detachSession
  | killSession
  deriving DecidableEq

/-- What a command is told of its request. -/
inductive RequestOutcome
  | ack
  | daemonError
  | disconnected
  deriving DecidableEq

/-- Where a command is; an attach alone is ever `registered`. -/
inductive CmdPc
  | start
  | registered
  | sent
  | resolved (r : RequestOutcome)
  | over (ok : Bool)
  deriving DecidableEq

/-- Where a command's request is. -/
inductive WireState
  | unsent
  | transit
  | processed (ok : Bool)
  deriving DecidableEq

/-- A command that runs for a session. -/
structure CmdTask where
  cmd : SessionCmd
  session : String
  pc : CmdPc
  request : WireState
  deriving DecidableEq

namespace CmdTask

variable (c : CmdTask)

def channel : Option Channel :=
  match c.cmd with
  | .attachSession ch => some ch
  | _ => none

/-- Whether the command removes the session's attachment once its request is resolved. -/
def removes : RequestOutcome → Bool
  | .ack => c.channel.isNone
  | .daemonError => c.channel.isSome
  | .disconnected => c.channel.isSome

/-- Whether the next step of the command does. -/
def removesNext : Bool :=
  match c.pc with
  | .resolved r => c.removes r
  | _ => false

/-- Whether the command has been told of the daemon's acknowledgement, or may be. -/
def mayBeAcked : Bool :=
  c.request = .processed true
    ∧ (c.pc = .sent ∨ c.pc = .resolved .ack ∨ c.pc = .over true)

end CmdTask

/-- The broker, the commands there have been, and the last request of each session that the daemon
has processed. -/
structure ChannelSys where
  broker : Broker
  tasks : List CmdTask
  last : String → Option ℕ

inductive ChannelAct
  | invoke (cmd : SessionCmd) (session : String)
  | register (i : ℕ)
  | send (i : ℕ) (client : Bool)
  | process (i : ℕ) (ok : Bool)
  | answer (i : ℕ) (r : RequestOutcome)
  | finish (i : ℕ)
  deriving DecidableEq

namespace ChannelSys

variable (s : ChannelSys)

def setTask (i : ℕ) (c : CmdTask) : ChannelSys := { s with tasks := s.tasks.set i c }

def invoke (cmd : SessionCmd) (session : String) : ChannelSys :=
  { s with tasks := s.tasks ++ [⟨cmd, session, .start, .unsent⟩] }

def register (i : ℕ) (c : CmdTask) : Option ChannelSys :=
  match c.cmd, c.pc with
  | .attachSession ch, .start =>
    some { s.setTask i { c with pc := .registered } with
      broker := s.broker.registerAttachment c.session ch }
  | _, _ => none

/-- The request is handed to the client; without one the command is over at once. -/
def send (i : ℕ) (c : CmdTask) (client : Bool) : Option ChannelSys :=
  if c.pc = (if c.channel.isSome then .registered else .start) then
    if client then some (s.setTask i { c with pc := .sent, request := .transit })
    else some (s.setTask i { c with pc := .over false })
  else none

/-- The daemon processes a request, whether or not its command still waits. -/
def process (i : ℕ) (c : CmdTask) (ok : Bool) : Option ChannelSys :=
  if c.request = .transit then
    some { s.setTask i { c with request := .processed ok } with
      last := Function.update s.last c.session (some i) }
  else none

/-- A command is told the daemon's answer, or that the connection is lost or the time is up. -/
def answer (i : ℕ) (c : CmdTask) (r : RequestOutcome) : Option ChannelSys :=
  if c.pc = .sent ∧ (r = .disconnected ∨ c.request = .processed (r = .ack)) then
    some (s.setTask i { c with pc := .resolved r })
  else none

/-- The rest of the command. -/
def finish (i : ℕ) (c : CmdTask) : Option ChannelSys :=
  match c.pc with
  | .resolved r =>
    let t := s.setTask i { c with pc := .over (r = .ack) }
    some (if c.removes r then { t with broker := s.broker.removeAttachment c.session } else t)
  | _ => none

def step (s : ChannelSys) : ChannelAct → Option ChannelSys
  | .invoke cmd session => some (s.invoke cmd session)
  | .register i => s.tasks[i]?.bind (s.register i)
  | .send i client => s.tasks[i]?.bind (s.send i · client)
  | .process i ok => s.tasks[i]?.bind (s.process i · ok)
  | .answer i r => s.tasks[i]?.bind (s.answer i · r)
  | .finish i => s.tasks[i]?.bind (s.finish i)

/-- Nothing is attached yet. -/
def init : ChannelSys := ⟨⟨fun _ => none⟩, [], fun _ => none⟩

/-- The last attach of a session and its channel, if it is the last request the daemon has
processed and its command has been told of the acknowledgement or may be. -/
def ackedAttach (session : String) : Option (ℕ × Channel) :=
  (s.last session).bind fun i => s.tasks[i]?.bind fun c =>
    if c.mayBeAcked then c.channel.map fun ch => (i, ch) else none

/-- No command of the session is in flight. -/
def Quiet (session : String) : Prop :=
  ∀ c ∈ s.tasks, c.session = session → c.pc = .over true ∨ c.pc = .over false

instance (session : String) : Decidable (s.Quiet session) :=
  inferInstanceAs (Decidable (∀ c ∈ s.tasks, _))

/-- With no command in flight, what the daemon sends for a session goes to the channel of the last
attach it has acknowledged. -/
def KeepsChannel : Prop :=
  ∀ session, s.Quiet session → ∀ p ∈ s.ackedAttach session, ∀ ev,
    s.broker.dispatchPush session ev = some (p.2, ev)

/-- An attach that has registered its channel, and whose request the daemon has not processed. -/
structure Pending (c : CmdTask) : Prop where
  attach : c.channel.isSome = true
  pc : c.pc = .registered ∨ c.pc = .sent ∨ c.pc = .resolved .disconnected
  request : ∀ ok, c.request ≠ .processed ok

instance (c : CmdTask) : Decidable (Pending c) :=
  decidable_of_iff (c.channel.isSome = true
      ∧ (c.pc = .registered ∨ c.pc = .sent ∨ c.pc = .resolved .disconnected)
      ∧ ∀ ok, c.request ≠ .processed ok)
    ⟨fun h => ⟨h.1, h.2.1, h.2.2⟩, fun h => ⟨h.attach, h.pc, h.request⟩⟩

/-- Whether what is registered for a session is the channel of such an attach. -/
def Superseded (session : String) : Prop :=
  ∃ c ∈ s.tasks, c.session = session ∧ Pending c ∧ s.broker.attachments session = c.channel

instance (session : String) : Decidable (s.Superseded session) :=
  inferInstanceAs (Decidable (∃ c ∈ s.tasks, _))

/-- Whether a step changes no session's entry out of turn: when the daemon acknowledges an attach,
its channel is the registered one or a later attach is to be processed yet, no command removes the
registration of another's acknowledged attach, and none that finds no client has taken its place. -/
def InTurn : ChannelAct → Prop
  | .process i ok => ok = true → ∀ c ∈ s.tasks[i]?, ∀ ch ∈ c.channel, c.pc = .sent →
    s.broker.attachments c.session = some ch ∨ s.Superseded c.session
  | .finish i => ∀ c ∈ s.tasks[i]?, c.removesNext = true → ∀ p ∈ s.ackedAttach c.session, p.1 = i
  | .send i client => client = false → ∀ c ∈ s.tasks[i]?, ∀ ch ∈ c.channel,
    s.broker.attachments c.session = some ch → s.ackedAttach c.session = none
  | _ => True

instance (a : ChannelAct) : Decidable (s.InTurn a) := by
  unfold InTurn
  split <;> infer_instance

/-- A command's request against what the command has been told. -/
structure Answered (c : CmdTask) : Prop where
  unsent : c.pc = .start ∨ c.pc = .registered → c.request = .unsent
  ack : c.pc = .resolved .ack ∨ c.pc = .over true → c.request = .processed true

/-- `KeepsChannel` before all commands are over: a channel that has been registered since is of an
attach that will fail or be processed. -/
structure ChannelInv : Prop where
  answered : ∀ (i : ℕ) (c : CmdTask), s.tasks[i]? = some c → Answered c
  last : ∀ session i, s.last session = some i →
    ∃ c ok, s.tasks[i]? = some c ∧ c.session = session ∧ c.request = .processed ok
  kept : ∀ session, ∀ p ∈ s.ackedAttach session,
    s.broker.attachments session = some p.2 ∨ s.Superseded session

variable {s} {t : ChannelSys} {i k : ℕ} {c c' : CmdTask} {session : String}

theorem mem_ackedAttach {p : ℕ × Channel} : p ∈ s.ackedAttach session ↔
    s.last session = some p.1 ∧ ∃ c, s.tasks[p.1]? = some c ∧ c.mayBeAcked = true
      ∧ c.channel = some p.2 := by
  obtain ⟨i, ch⟩ := p
  unfold ackedAttach
  simp only [Option.mem_def, Option.bind_eq_some_iff]
  constructor
  · rintro ⟨j, hj, c, hc, h⟩
    split_ifs at h with hacked
    simp only [Option.map_eq_some_iff, Prod.mk.injEq] at h
    obtain ⟨ch', hch, rfl, rfl⟩ := h
    exact ⟨hj, c, hc, hacked, hch⟩
  · rintro ⟨hi, c, hc, hacked, hch⟩
    exact ⟨i, hi, c, hc, by rw [if_pos hacked, hch]; rfl⟩

/-- How a step rewrites one command's task: the command and its session stay, a processed request
stays so, and no acknowledgement comes out of nothing. -/
structure Moves (s t : ChannelSys) (i : ℕ) (c c' : CmdTask) : Prop where
  get : s.tasks[i]? = some c
  tasks : t.tasks = s.tasks.set i c'
  cmd : c'.cmd = c.cmd
  session : c'.session = c.session
  answered : Answered c'

namespace Moves

variable (h : Moves s t i c c')
include h

theorem channel_eq : c'.channel = c.channel := by
  unfold CmdTask.channel
  rw [h.cmd]

theorem getElem? : t.tasks[k]? = if k = i then some c' else s.tasks[k]? := by
  rw [h.tasks]
  exact Slots.getElem?_set h.get c' k

theorem answered_all (hI : s.ChannelInv) (k : ℕ) (d : CmdTask) (hk : t.tasks[k]? = some d) :
    Answered d := by
  rw [h.getElem?] at hk
  split_ifs at hk with hki
  · obtain rfl : c' = d := by simpa using hk
    exact h.answered
  · exact hI.answered k d hk

theorem last_keeps (hI : s.ChannelInv) (hlast : t.last = s.last)
    (hprocessed : ∀ ok, c.request = .processed ok → c'.request = .processed ok) :
    ∀ session k, t.last session = some k →
      ∃ d ok, t.tasks[k]? = some d ∧ d.session = session ∧ d.request = .processed ok := by
  intro session k hk
  rw [hlast] at hk
  obtain ⟨d, ok, hd, hsession, hok⟩ := hI.last session k hk
  rw [h.getElem?]
  by_cases hki : k = i
  · subst hki
    obtain rfl : c = d := by simpa [h.get] using hd
    exact ⟨c', ok, if_pos rfl, h.session.trans hsession, hprocessed ok hok⟩
  · exact ⟨d, ok, by rw [if_neg hki, hd], hsession, hok⟩

theorem ackedAttach_subset (hlast : t.last session = s.last session)
    (hacked : c'.mayBeAcked = true → c.mayBeAcked = true) {p : ℕ × Channel}
    (hp : p ∈ t.ackedAttach session) : p ∈ s.ackedAttach session := by
  rw [mem_ackedAttach] at hp ⊢
  obtain ⟨hl, d, hd, hmay, hch⟩ := hp
  refine ⟨hlast ▸ hl, ?_⟩
  rw [h.getElem?] at hd
  split_ifs at hd with hki
  · obtain rfl : c' = d := by simpa using hd
    exact ⟨c, hki ▸ h.get, hacked hmay, h.channel_eq ▸ hch⟩
  · exact ⟨d, hd, hmay, hch⟩

theorem superseded_keeps
    (hentry : t.broker.attachments session = s.broker.attachments session)
    (hpending : c.session = session → c.channel = s.broker.attachments session → Pending c →
      Pending c') (hs : s.Superseded session) : t.Superseded session := by
  obtain ⟨d, hd, hsession, hpend, hch⟩ := hs
  obtain ⟨k, hd⟩ := List.getElem?_of_mem hd
  by_cases hki : k = i
  · subst hki
    obtain rfl : c = d := by simpa [h.get] using hd
    refine ⟨c', List.mem_of_getElem? (h.getElem?.trans (if_pos rfl)), h.session.trans hsession,
      hpending hsession hch.symm hpend, ?_⟩
    rw [hentry, hch, h.channel_eq]
  · refine ⟨d, List.mem_of_getElem? (i := k) ?_, hsession, hpend, hentry.trans hch⟩
    rw [h.getElem?, if_neg hki, hd]

/-- A step that leaves the map and the last requests as they are. -/
theorem quiet (hI : s.ChannelInv) (hbroker : t.broker = s.broker) (hlast : t.last = s.last)
    (hprocessed : ∀ ok, c.request = .processed ok → c'.request = .processed ok)
    (hacked : c'.mayBeAcked = true → c.mayBeAcked = true)
    (hpending : ∀ p ∈ s.ackedAttach c.session, c.channel = s.broker.attachments c.session →
      Pending c → Pending c') : t.ChannelInv := by
  refine ⟨h.answered_all hI, h.last_keeps hI hlast hprocessed, fun session p hp => ?_⟩
  have hp' := h.ackedAttach_subset (by rw [hlast]) hacked hp
  rcases hI.kept session p hp' with hkept | hs
  · exact .inl (by rw [hbroker, hkept])
  · refine .inr (h.superseded_keeps (by rw [hbroker]) ?_ hs)
    rintro rfl
    exact hpending p hp'

end Moves

theorem channelInv_invoke (hI : s.ChannelInv) (cmd : SessionCmd) (session : String) :
    (s.invoke cmd session).ChannelInv := by
  have hget : ∀ {k : ℕ} {d : CmdTask}, s.tasks[k]? = some d →
      (s.invoke cmd session).tasks[k]? = some d := by
    intro k d hd
    rw [invoke, List.getElem?_append_left (List.getElem?_eq_some_iff.1 hd).1, hd]
  refine ⟨fun k d hd => ?_, fun session' k hk => ?_, fun session' p hp => ?_⟩
  · rw [invoke, List.getElem?_append] at hd
    split_ifs at hd with hk
    · exact hI.answered k d hd
    · obtain rfl : d = ⟨cmd, session, .start, .unsent⟩ := by
        simpa using List.mem_of_getElem? hd
      exact ⟨fun _ => rfl, by simp⟩
  · obtain ⟨d, ok, hd, hrest⟩ := hI.last session' k hk
    exact ⟨d, ok, hget hd, hrest⟩
  · have hp' : p ∈ s.ackedAttach session' := by
      rw [mem_ackedAttach] at hp ⊢
      obtain ⟨hl, d, hd, hrest⟩ := hp
      obtain ⟨e, _, he, -⟩ := hI.last session' p.1 hl
      obtain rfl : e = d := by simpa [hget he] using hd
      exact ⟨hl, e, he, hrest⟩
    rcases hI.kept session' p hp' with hkept | ⟨d, hd, hrest⟩
    · exact .inl hkept
    · exact .inr ⟨d, List.mem_append_left _ hd, hrest⟩

theorem channelInv_register (hI : s.ChannelInv) (hget : s.tasks[i]? = some c)
    (h : s.register i c = some t) : t.ChannelInv := by
  unfold register at h
  split at h
  · rename_i ch hcmd hpc
    cases h
    have hunsent := (hI.answered i c hget).unsent (.inl hpc)
    have hm : Moves s { s.setTask i { c with pc := .registered } with
        broker := s.broker.registerAttachment c.session ch } i c { c with pc := .registered } :=
      ⟨hget, rfl, rfl, rfl, fun _ => hunsent, by simp⟩
    refine ⟨hm.answered_all hI, hm.last_keeps hI rfl fun _ h => h, fun session p hp => ?_⟩
    by_cases hsession : session = c.session
    · subst hsession
      have hch : c.channel = some ch := by simp [CmdTask.channel, hcmd]
      refine .inr ⟨_, List.mem_of_getElem? (hm.getElem?.trans (if_pos rfl)), rfl,
        ⟨?_, .inl rfl, ?_⟩, ?_⟩
      · rw [hm.channel_eq, hch]
        rfl
      · simp [hunsent]
      · rw [hm.channel_eq, hch]
        simp [Broker.registerAttachment]
    · have hentry : (s.broker.registerAttachment c.session ch).attachments session
          = s.broker.attachments session := by
        simp [Broker.registerAttachment, hsession]
      rcases hI.kept session p (hm.ackedAttach_subset rfl (by simp [CmdTask.mayBeAcked]) hp)
        with hkept | hs
      · exact .inl (hentry.trans hkept)
      · exact .inr (hm.superseded_keeps hentry (fun h => absurd h.symm hsession) hs)
  · cases h

theorem channelInv_send {client : Bool} (hI : s.ChannelInv) (hget : s.tasks[i]? = some c)
    (hturn : s.InTurn (.send i client)) (h : s.send i c client = some t) : t.ChannelInv := by
  unfold send at h
  rw [Option.ite_none_right_eq_some] at h
  obtain ⟨hpc, h⟩ := h
  split_ifs at h with hclient
  · cases h
    have hunsent : c.request = .unsent := by
      split_ifs at hpc
      · exact (hI.answered i c hget).unsent (.inr hpc)
      · exact (hI.answered i c hget).unsent (.inl hpc)
    have hm : Moves s (s.setTask i { c with pc := .sent, request := .transit }) i c
        { c with pc := .sent, request := .transit } :=
      ⟨hget, rfl, rfl, rfl, by simp, by simp⟩
    refine hm.quiet hI rfl rfl (by simp [hunsent]) (by simp [CmdTask.mayBeAcked]) ?_
    exact fun _ _ _ hp => ⟨hp.attach, .inr (.inl rfl), by simp⟩
  · cases h
    have hm : Moves s (s.setTask i { c with pc := .over false }) i c
        { c with pc := .over false } := ⟨hget, rfl, rfl, rfl, by simp, by simp⟩
    refine hm.quiet hI rfl rfl (fun _ h => h) (by simp [CmdTask.mayBeAcked]) ?_
    intro p hp hentry hpend
    obtain ⟨ch, hch⟩ := Option.isSome_iff_exists.1 hpend.attach
    have hnone := hturn (by simpa using hclient) c hget ch hch (hentry.symm.trans hch)
    rw [hnone] at hp
    cases hp

theorem channelInv_process {ok : Bool} (hI : s.ChannelInv) (hget : s.tasks[i]? = some c)
    (hturn : s.InTurn (.process i ok)) (h : s.process i c ok = some t) : t.ChannelInv := by
  unfold process at h
  split_ifs at h with htransit
  cases h
  have hA := hI.answered i c hget
  have hm : Moves s { s.setTask i { c with request := .processed ok } with
      last := Function.update s.last c.session (some i) } i c { c with request := .processed ok } :=
    ⟨hget, rfl, rfl, rfl, fun h => absurd (hA.unsent h) (by simp [htransit]),
      fun h => absurd (hA.ack h) (by simp [htransit])⟩
  refine ⟨hm.answered_all hI, fun session k hk => ?_, fun session p hp => ?_⟩
  · by_cases hsession : session = c.session
    · obtain rfl : i = k := by simpa [hsession] using hk
      exact ⟨_, ok, hm.getElem?.trans (if_pos rfl), hsession.symm, rfl⟩
    · have hk' : s.last session = some k := by simpa [hsession] using hk
      obtain ⟨d, ok', hd, hds, hdok⟩ := hI.last session k hk'
      have hki : k ≠ i := by
        rintro rfl
        obtain rfl : c = d := by simpa [hget] using hd
        exact hsession hds.symm
      exact ⟨d, ok', by rw [hm.getElem?, if_neg hki, hd], hds, hdok⟩
  · by_cases hsession : session = c.session
    · subst hsession
      obtain ⟨hl, d, hd, hmay, hch⟩ := mem_ackedAttach.1 hp
      obtain rfl : i = p.1 := by simpa using hl
      obtain rfl : { c with request := .processed ok } = d := by
        simpa [hm.getElem?] using hd
      simp only [CmdTask.mayBeAcked, decide_eq_true_eq, WireState.processed.injEq] at hmay
      obtain ⟨rfl, hpc | hpc⟩ := hmay
      · have hch' : c.channel = some p.2 := hm.channel_eq ▸ hch
        by_cases hentry : s.broker.attachments c.session = some p.2
        · exact .inl hentry
        · -- what is registered is another attach's channel, which stays pending
          have hs := (hturn rfl c hget p.2 hch' hpc).resolve_left hentry
          refine .inr (hm.superseded_keeps rfl (fun _ heq => ?_) hs)
          exact absurd (heq.symm.trans hch') hentry
      · exact absurd (hA.ack hpc) (by simp [htransit])
    · have hl : Function.update s.last c.session (some i) session = s.last session := by
        simp [hsession]
      have hp' : p ∈ s.ackedAttach session := by
        rw [mem_ackedAttach] at hp ⊢
        obtain ⟨hlast, d, hd, hrest⟩ := hp
        have hlast' : s.last session = some p.1 := hl ▸ hlast
        obtain ⟨e, _, he, hes, -⟩ := hI.last session p.1 hlast'
        have hpi : p.1 ≠ i := by
          intro hpi
          obtain rfl : c = e := by simpa [← hpi, he] using hget.symm
          exact hsession hes.symm
        rw [hm.getElem?, if_neg hpi] at hd
        exact ⟨hlast', d, hd, hrest⟩
      rcases hI.kept session p hp' with hkept | hs
      · exact .inl hkept
      · exact .inr (hm.superseded_keeps rfl (fun h => absurd h.symm hsession) hs)

theorem channelInv_answer {r : RequestOutcome} (hI : s.ChannelInv) (hget : s.tasks[i]? = some c)
    (h : s.answer i c r = some t) : t.ChannelInv := by
  unfold answer at h
  split_ifs at h with hr
  cases h
  obtain ⟨hpc, hr⟩ := hr
  have hm : Moves s (s.setTask i { c with pc := .resolved r }) i c
      { c with pc := .resolved r } := by
    refine ⟨hget, rfl, rfl, rfl, by simp, ?_⟩
    rintro (h | h)
    · obtain rfl : r = .ack := by simpa using h
      simpa using hr
    · simp at h
  refine hm.quiet hI rfl rfl (fun _ h => h) (fun h => ?_) fun _ _ _ hp => ?_
  · simp only [CmdTask.mayBeAcked, decide_eq_true_eq] at h ⊢
    exact ⟨h.1, .inl hpc⟩
  · refine ⟨hp.attach, .inr (.inr ?_), hp.request⟩
    rcases hr with rfl | hr
    · rfl
    · exact absurd hr (hp.request _)

theorem channelInv_finish (hI : s.ChannelInv) (hget : s.tasks[i]? = some c)
    (hturn : s.InTurn (.finish i)) (h : s.finish i c = some t) : t.ChannelInv := by
  unfold finish at h
  split at h
  · rename_i r hpc
    have hA : Answered { c with pc := .over (r = .ack) } := by
      refine ⟨by simp, fun h => (hI.answered i c hget).ack (.inl ?_)⟩
      simpa [hpc] using h
    have hacked : CmdTask.mayBeAcked { c with pc := .over (r = .ack) } = true →
        c.mayBeAcked = true := by
      simp [CmdTask.mayBeAcked, hpc]
    by_cases hremoves : c.removes r = true
    · simp only [hremoves, if_true, Option.some.injEq] at h
      subst h
      have hm : Moves s { s.setTask i { c with pc := .over (r = .ack) } with
          broker := s.broker.removeAttachment c.session } i c
          { c with pc := .over (r = .ack) } := ⟨hget, rfl, rfl, rfl, hA⟩
      refine ⟨hm.answered_all hI, hm.last_keeps hI rfl fun _ h => h, fun session p hp => ?_⟩
      have hp' := hm.ackedAttach_subset rfl hacked hp
      by_cases hsession : session = c.session
      · subst hsession
        have hnext : c.removesNext = true := by simpa [CmdTask.removesNext, hpc] using hremoves
        have hpi : p.1 = i := hturn c hget hnext p hp'
        -- its own attach is acknowledged and removes nothing
        obtain ⟨-, d, hd, hmay, hch⟩ := mem_ackedAttach.1 hp
        obtain rfl : { c with pc := .over (r = .ack) } = d := by
          simpa [hm.getElem?, hpi] using hd
        simp only [CmdTask.mayBeAcked, decide_eq_true_eq] at hmay
        obtain rfl : r = .ack := by simpa using hmay.2
        rw [hm.channel_eq] at hch
        simp [CmdTask.removes, hch] at hremoves
      · have hentry : (s.broker.removeAttachment c.session).attachments session
            = s.broker.attachments session := by
          simp [Broker.removeAttachment, hsession]
        rcases hI.kept session p hp' with hkept | hs
        · exact .inl (hentry.trans hkept)
        · exact .inr (hm.superseded_keeps hentry (fun h => absurd h.symm hsession) hs)
    · simp only [if_neg hremoves, Option.some.injEq] at h
      subst h
      have hm : Moves s (s.setTask i { c with pc := .over (r = .ack) }) i c
          { c with pc := .over (r = .ack) } := ⟨hget, rfl, rfl, rfl, hA⟩
      refine hm.quiet hI rfl rfl (fun _ h => h) hacked fun _ _ _ hpend => absurd ?_ hremoves
      obtain rfl : r = .disconnected := by simpa [hpc] using hpend.pc
      exact hpend.attach
  · cases h

theorem channelInv_step {a : ChannelAct} (hI : s.ChannelInv) (hturn : s.InTurn a)
    (h : s.step a = some t) : t.ChannelInv := by
  have htask : ∀ {i : ℕ} {f : CmdTask → Option ChannelSys}, s.tasks[i]?.bind f = some t →
      ∃ c, s.tasks[i]? = some c ∧ f c = some t := fun h => Option.bind_eq_some_iff.1 h
  cases a with
  | invoke cmd session =>
    cases h
    exact channelInv_invoke hI cmd session
  | register i =>
    obtain ⟨c, hget, h⟩ := htask h
    exact channelInv_register hI hget h
  | send i client =>
    obtain ⟨c, hget, h⟩ := htask h
    exact channelInv_send hI hget hturn h
  | process i ok =>
    obtain ⟨c, hget, h⟩ := htask h
    exact channelInv_process hI hget hturn h
  | answer i r =>
    obtain ⟨c, hget, h⟩ := htask h
    exact channelInv_answer hI hget h
  | finish i =>
    obtain ⟨c, hget, h⟩ := htask h
    exact channelInv_finish hI hget hturn h

theorem channelInv_init : init.ChannelInv := by
  refine ⟨fun i c h => ?_, fun session i h => ?_, fun session p h => ?_⟩
  · simp [init] at h
  · simp [init] at h
  · simp [ackedAttach, init] at h

/-- With no command in flight there is none to fail or be processed. -/
theorem ChannelInv.keepsChannel (hI : s.ChannelInv) : s.KeepsChannel := by
  intro session hquiet p hp ev
  rcases hI.kept session p hp with hkept | ⟨c, hc, hsession, hpend, -⟩
  · rw [Broker.dispatchPush, hkept]
    rfl
  · rcases hquiet c hc hsession with hpc | hpc
    · simpa [hpc] using hpend.pc
    · simpa [hpc] using hpend.pc

theorem not_keepsChannel {p : ℕ × Channel} (hquiet : s.Quiet session)
    (hp : s.ackedAttach session = some p) (hnone : s.broker.attachments session = none) :
    ¬s.KeepsChannel := by
  intro hkeeps
  have hsent := hkeeps session hquiet p hp (.output [])
  rw [Broker.dispatchPush, hnone] at hsent
  cases hsent

/-- However the commands of any sessions and the daemon's processing interleave, with no command of
a session in flight its `Replay` and `Output` reach the channel of the last attach acknowledged, as
long as no step changes the entry out of turn. -/
theorem keepsChannel_of_inTurn {as : List ChannelAct} (hturn : Runs.Along step InTurn init as)
    (hr : Runs.run step init as = some t) : t.KeepsChannel :=
  (hturn.keeps (fun _ _ _ hI hC h => channelInv_step hI hC h) channelInv_init hr).keepsChannel

/-- A request is made, processed and acknowledged, and its command gets no further. -/
def acked (i : ℕ) : List ChannelAct := [.send i true, .process i true, .answer i .ack]

/-- A terminal is unmounted and mounted again: the detach removes what the attach has registered. -/
def remount : List ChannelAct :=
  [.invoke (.attachSession 1) "s", .register 0] ++ acked 0 ++ [.finish 0]
    ++ [.invoke .detachSession "s", .invoke (.attachSession 2) "s", .register 2]
    ++ acked 1 ++ [.finish 1] ++ acked 2 ++ [.finish 2]

theorem remount_dropsOutput : ∃ t, Runs.run step init remount = some t ∧ t.Quiet "s"
    ∧ t.ackedAttach "s" = some (2, 2) ∧ (∀ ev, t.broker.dispatchPush "s" ev = none)
    ∧ ¬t.KeepsChannel := by
  refine ⟨_, rfl, by decide +kernel, by decide +kernel, fun _ => rfl, ?_⟩
  exact @not_keepsChannel _ "s" (2, 2) (by decide +kernel) (by decide +kernel) rfl

/-- The same one after the other. -/
def remountInTurn : List ChannelAct :=
  [.invoke (.attachSession 1) "s", .register 0] ++ acked 0 ++ [.finish 0]
    ++ [.invoke .detachSession "s"] ++ acked 1 ++ [.finish 1]
    ++ [.invoke (.attachSession 2) "s", .register 2] ++ acked 2 ++ [.finish 2]

theorem keepsChannel_of_inTurn_remount : ∃ t, Runs.run step init remountInTurn = some t
    ∧ t.ackedAttach "s" = some (2, 2) ∧ t.KeepsChannel := by
  refine ⟨_, rfl, by decide +kernel, ?_⟩
  exact @keepsChannel_of_inTurn _ remountInTurn (by decide +kernel) rfl

end ChannelSys

end BuilderPro
