import BuilderPro.App.TerminalSteps
import BuilderPro.Sessiond.AttachOnce

/-!
# From the PTY to the screen

A session's bytes go through the daemon's ring and the forwarders of the app's attachments, over the
connection, through the broker's map of channels and into the session's xterm, until the session is
detached or killed or the connection is lost.  The daemon, the commands of the app, the dispatch of
what has come, the messages of the channels and the calls of the manager interleave as they like.
In every run of safe steps, what the xterm shows and what is still to come make up the ring's
snapshot and the chunks it was given since, stripped, each once and in order (`displayed_of_safe`).
-/

namespace BuilderPro

/-- What a push leaves of an xterm's text. -/
def AttachPush.applyTo (text : Option (List UInt8)) : AttachPush → Option (List UInt8)
  | .replay content => some content
  | .output bytes => text.map (· ++ bytes)

/-- The event a push is mapped to; the size is the session's at the time of the replay. -/
def AttachPush.event (cols rows : ℕ) : AttachPush → TerminalEvent
  | .replay content => .replay cols rows content
  | .output bytes => .output bytes

/-- What a message leaves of an xterm's text. -/
def TerminalEvent.applyTo (text : Option (List UInt8)) : TerminalEvent → Option (List UInt8)
  | .replay _ _ content => some content
  | .output bytes => text.map (· ++ bytes)

/-- What an entry's xterm shows, once a Replay has been applied to it. -/
def TerminalEntry.text (e : TerminalEntry) : Option (List UInt8) :=
  e.shows.map fun _ => e.term.written

/-- The app and its connection to the daemon, as far as they serve one session. -/
structure ScreenSys where
  daemon : AttachSys
  /-- What the daemon has sent and the app has not dispatched. -/
  wire : List AttachPush
  channels : ChannelSys
  /-- What has been posted to the session's channels and not been handled. -/
  posted : List (Channel × TerminalEvent)
  manager : TerminalSys

inductive ScreenAct
  | daemon (a : AttachAct)
  | command (a : ChannelAct)
  | dispatch (cols rows : ℕ)
  | handle (ch : Channel)
  | manager (a : TerminalAct)

namespace ScreenSys

def init (cap : ℕ) : ScreenSys := ⟨AttachSys.init cap, [], ChannelSys.init, [], TerminalSys.init⟩

variable (s : ScreenSys)

/-- The session an attach of the manager is for. -/
def sessionOf (ch : Channel) : Option String := s.manager.calls[ch]?.map AttachCall.session

def daemonStep (a : AttachAct) : Option ScreenSys :=
  (s.daemon.step a).map fun d => { s with
    daemon := d
    wire := s.wire ++ d.received.drop s.daemon.received.length }

variable (session : String)

/-- A command's step; the manager's attaches alone invoke `attach_session`, with a channel of their
own, and the session is neither detached nor killed. -/
def commandStep (a : ChannelAct) : Option ScreenSys :=
  match a with
  | .invoke (.attachSession ch) x =>
    if s.sessionOf ch = some x then (s.channels.step a).map ({ s with channels := · }) else none
  | .invoke _ x =>
    if x = session then none else (s.channels.step a).map ({ s with channels := · })
  | _ => (s.channels.step a).map ({ s with channels := · })

/-- `dispatch_push` of the next push. -/
def dispatchStep (cols rows : ℕ) : Option ScreenSys :=
  match s.wire with
  | [] => none
  | p :: wire =>
    match s.channels.broker.dispatchPush session (p.event cols rows) with
    | some m => some { s with wire := wire, posted := s.posted ++ [m] }
    | none => some { s with wire := wire }

/-- The first message of a channel is handled. -/
def handleStep (ch : Channel) : Option ScreenSys :=
  match s.posted.find? (·.1 = ch) with
  | none => none
  | some m => (s.manager.message ch m.2).map fun t =>
      { s with manager := t, posted := s.posted.eraseP (·.1 = ch) }

/-- A call of the manager, or what it is told of other sessions. -/
def managerStep (a : TerminalAct) : Option ScreenSys :=
  match a with
  | .message ch _ =>
    if s.sessionOf ch = some session then none
    else (s.manager.step a).map ({ s with manager := · })
  | _ => (s.manager.step a).map ({ s with manager := · })

def step : ScreenAct → Option ScreenSys
  | .daemon a => s.daemonStep a
  | .command a => s.commandStep session a
  | .dispatch cols rows => s.dispatchStep session cols rows
  | .handle ch => s.handleStep ch
  | .manager a => s.managerStep session a

/-- The text of the session's xterm. -/
def shown : Option (List UInt8) := (s.manager.entries session).bind TerminalEntry.text

/-- The text the xterm will have once all that is posted and on the wire has reached it. -/
def settled : Option (List UInt8) :=
  s.wire.foldl AttachPush.applyTo
    ((s.posted.map Prod.snd).foldl TerminalEvent.applyTo (s.shown session))

/-- The settled text is the ring's snapshot after the first `k` chunks, at which the sanitizer held
nothing, and the next chunks up to the `m`th, stripped, but for what is held back or about to be
sent; the others are on their way. -/
def Displayed (cap : ℕ) : Prop :=
  ∀ text ∈ s.settled session, ∃ k m, k ≤ m ∧ m ≤ s.daemon.pushed.length ∧
    ((ScrollbackRing.new cap).pushAll (s.daemon.pushed.take k)).filter.carry = [] ∧
    ((ScrollbackRing.new cap).pushAll (s.daemon.pushed.take k)).snapshot
      ++ (LiveOscStripper.new.stripAll ((s.daemon.pushed.take m).drop k)).1
      = text ++ s.daemon.aboutToSend ∧
    (LiveOscStripper.new.stripAll ((s.daemon.pushed.take m).drop k)).2.carry = s.daemon.held ∧
    s.daemon.pushed.drop m = s.daemon.onTheWay

/-- No step takes a byte twice or loses one: the daemon's are safe, a push finds a channel
registered, the messages are handled in the order they were posted and find the session's entry, and
the entry is not disposed once its xterm shows a Replay. -/
def safe : ScreenAct → Bool
  | .daemon a => s.daemon.attachSafe a
  | .dispatch _ _ => (s.channels.broker.attachments session).isSome
  | .handle ch => s.posted.head?.map Prod.fst = some ch ∧ (s.manager.entries session).isSome
  | .manager (.dispose x) => x ≠ session ∨ s.shown session = none
  | _ => true

/-- The channels registered for the session, and those with messages posted, are of the manager's
attaches for it. -/
structure Wired : Prop where
  task : ∀ c ∈ s.channels.tasks, ∀ ch ∈ c.channel, s.sessionOf ch = some c.session
  registered : ∀ x, ∀ ch ∈ s.channels.broker.attachments x, s.sessionOf ch = some x
  posted : ∀ m ∈ s.posted, s.sessionOf m.1 = some session

structure ScreenInv (cap : ℕ) : Prop where
  daemon : s.daemon.AttachInv cap
  wired : s.Wired session
  settled : s.settled session = s.daemon.received.foldl AttachPush.applyTo none

variable {s session} {t : ScreenSys} {cap : ℕ}

/-! ## What the connection was sent -/

theorem foldl_applyTo (ps : List AttachPush) :
    ps.foldl AttachPush.applyTo none = (AttachSys.fromLatest ps).map fun c => c.1 ++ c.2 := by
  induction ps using List.reverseRecOn with
  | nil => rfl
  | append_singleton ps p ih =>
    rw [List.foldl_append, ih]
    cases p with
    | replay content => simp [AttachPush.applyTo]
    | output bytes =>
      rw [AttachSys.fromLatest_output, Option.map_map]
      simp [AttachPush.applyTo, Function.comp_def]

/-- A step of the daemon only sends more. -/
theorem received_prefix {d e : AttachSys} {a : AttachAct} (h : d.step a = some e) :
    d.received <+: e.received := by
  cases a with
  | read chunk =>
    simp only [AttachSys.step] at h
    split at h <;> cases h
    exact List.prefix_rfl
  | eof =>
    simp only [AttachSys.step] at h
    split at h <;> cases h
    exact List.prefix_rfl
  | reader =>
    simp only [AttachSys.step, AttachSys.readerStep] at h
    split at h <;> cases h <;> exact List.prefix_rfl
  | childExited =>
    cases h
    exact List.prefix_rfl
  | removeSession =>
    cases h
    exact List.prefix_rfl
  | request =>
    simp only [AttachSys.step] at h
    split at h <;> cases h
    exact List.prefix_rfl
  | attach =>
    simp only [AttachSys.step, AttachSys.attachStep] at h
    split at h <;> (try split at h) <;> cases h <;>
      first | exact List.prefix_rfl | exact List.prefix_append _ _
  | forward i =>
    obtain ⟨u, -, h⟩ := Option.bind_eq_some_iff.1 h
    unfold AttachSys.forwardStep at h
    split at h <;> (try split at h) <;> cases h <;>
      first | exact List.prefix_rfl | exact List.prefix_append _ _

/-! ## Whose the channels are -/

/-- An attach stays of its session. -/
theorem session_kept {m m' : TerminalSys} {a : TerminalAct} (h : m.step a = some m') {ch : Channel}
    {x : String} (hx : m.calls[ch]?.map AttachCall.session = some x) :
    m'.calls[ch]?.map AttachCall.session = some x := by
  obtain ⟨c, hc, rfl⟩ := Option.map_eq_some_iff.1 hx
  have hset : ∀ (i : ℕ) (b b' : AttachCall), m.calls[i]? = some b → b'.session = b.session →
      (m.calls.set i b')[ch]?.map AttachCall.session = some c.session := by
    intro i b b' hb hs
    rw [Slots.getElem?_set hb]
    split_ifs with hi
    · obtain rfl : c = b := by simpa [hi, hb] using hc.symm
      simp [hs]
    · simp [hc]
  have hsettle : ∀ (i : ℕ) (err : Option String), m.settle i err = some m' →
      m'.calls[ch]?.map AttachCall.session = some c.session := by
    intro i err h
    unfold TerminalSys.settle at h
    split at h
    · cases h
    · rename_i b hb
      rw [Option.ite_none_right_eq_some] at h
      obtain ⟨-, h⟩ := h
      dsimp only at h
      split at h <;> cases h <;> exact hset i b _ hb rfl
  cases a with
  | ensure y size =>
    cases h
    unfold TerminalSys.ensure
    split <;> exact hx
  | attach y =>
    cases h
    unfold TerminalSys.attach
    split
    · exact hx
    · split_ifs
      · rw [List.getElem?_append_left (List.getElem?_eq_some_iff.1 hc).1]
        exact hx
      · exact hx
  | resetAttachment y =>
    cases h
    exact hx
  | resetAllAttachments =>
    cases h
    exact hx
  | dispose y =>
    cases h
    exact hx
  | resolve i => exact hsettle i none h
  | reject i err => exact hsettle i (some err) h
  | message i ev =>
    simp only [TerminalSys.step, TerminalSys.message] at h
    split at h
    · cases h
    · rename_i b hb
      split at h <;> cases h <;> exact hset i b _ hb rfl

/-- A command's task is one there was, or the invoked one's. -/
theorem task_kept {c d : ChannelSys} {a : ChannelAct} (h : c.step a = some d) {k : CmdTask}
    (hk : k ∈ d.tasks) : (∃ j ∈ c.tasks, k.channel = j.channel ∧ k.session = j.session)
      ∨ a = .invoke k.cmd k.session := by
  have hset : ∀ {i : ℕ} {j j' : CmdTask}, k ∈ c.tasks.set i j' → c.tasks[i]? = some j →
      j'.cmd = j.cmd → j'.session = j.session →
      ∃ j ∈ c.tasks, k.channel = j.channel ∧ k.session = j.session := by
    intro i j j' hk hj hcmd hs
    rcases List.mem_or_eq_of_mem_set hk with hk | rfl
    · exact ⟨k, hk, rfl, rfl⟩
    · exact ⟨j, List.mem_of_getElem? hj, by simp only [CmdTask.channel, hcmd], hs⟩
  cases a with
  | invoke cmd x =>
    cases h
    rcases List.mem_append.1 hk with hk | hk
    · exact .inl ⟨k, hk, rfl, rfl⟩
    · obtain rfl := List.mem_singleton.1 hk
      exact .inr rfl
  | register i =>
    obtain ⟨j, hj, h⟩ := Option.bind_eq_some_iff.1 h
    unfold ChannelSys.register at h
    split at h <;> cases h
    exact .inl (hset hk hj rfl rfl)
  | send i client =>
    obtain ⟨j, hj, h⟩ := Option.bind_eq_some_iff.1 h
    unfold ChannelSys.send at h
    rw [Option.ite_none_right_eq_some] at h
    obtain ⟨-, h⟩ := h
    split_ifs at h <;> cases h <;> exact .inl (hset hk hj rfl rfl)
  | process i ok =>
    obtain ⟨j, hj, h⟩ := Option.bind_eq_some_iff.1 h
    unfold ChannelSys.process at h
    split at h <;> cases h
    exact .inl (hset hk hj rfl rfl)
  | answer i r =>
    obtain ⟨j, hj, h⟩ := Option.bind_eq_some_iff.1 h
    unfold ChannelSys.answer at h
    split at h <;> cases h
    exact .inl (hset hk hj rfl rfl)
  | finish i =>
    obtain ⟨j, hj, h⟩ := Option.bind_eq_some_iff.1 h
    unfold ChannelSys.finish at h
    split at h
    · split_ifs at h <;> cases h <;> exact .inl (hset hk hj rfl rfl)
    · cases h

/-- A channel that is registered was so, or is a task's own. -/
theorem registered_kept {c d : ChannelSys} {a : ChannelAct} (h : c.step a = some d) {x : String}
    {ch : Channel} (hx : d.broker.attachments x = some ch) :
    c.broker.attachments x = some ch ∨ ∃ j ∈ c.tasks, j.channel = some ch ∧ j.session = x := by
  cases a with
  | invoke cmd y =>
    cases h
    exact .inl hx
  | register i =>
    obtain ⟨j, hj, h⟩ := Option.bind_eq_some_iff.1 h
    unfold ChannelSys.register at h
    split at h
    · rename_i ch' hcmd hpc
      cases h
      by_cases hs : x = j.session
      · subst hs
        obtain rfl : ch' = ch := by simpa [Broker.registerAttachment] using hx
        exact .inr ⟨j, List.mem_of_getElem? hj, by simp [CmdTask.channel, hcmd], rfl⟩
      · exact .inl (by simpa [Broker.registerAttachment, hs] using hx)
    · cases h
  | send i client =>
    obtain ⟨j, hj, h⟩ := Option.bind_eq_some_iff.1 h
    unfold ChannelSys.send at h
    rw [Option.ite_none_right_eq_some] at h
    obtain ⟨-, h⟩ := h
    split_ifs at h <;> cases h <;> exact .inl hx
  | process i ok =>
    obtain ⟨j, hj, h⟩ := Option.bind_eq_some_iff.1 h
    unfold ChannelSys.process at h
    split at h <;> cases h
    exact .inl hx
  | answer i r =>
    obtain ⟨j, hj, h⟩ := Option.bind_eq_some_iff.1 h
    unfold ChannelSys.answer at h
    split at h <;> cases h
    exact .inl hx
  | finish i =>
    obtain ⟨j, hj, h⟩ := Option.bind_eq_some_iff.1 h
    unfold ChannelSys.finish at h
    split at h
    · split_ifs at h <;> cases h
      · by_cases hs : x = j.session
        · simp [Broker.removeAttachment, hs] at hx
        · exact .inl (by simpa [Broker.removeAttachment, hs] using hx)
      · exact .inl hx
    · cases h

theorem commandStep_eq {a : ChannelAct} (h : s.commandStep session a = some t) :
    (∃ c, s.channels.step a = some c ∧ t = { s with channels := c }) ∧
      ∀ ch x, a = .invoke (.attachSession ch) x → s.sessionOf ch = some x := by
  unfold commandStep at h
  split at h
  · rename_i ch x
    rw [Option.ite_none_right_eq_some, Option.map_eq_some_iff] at h
    obtain ⟨hx, c, hc, rfl⟩ := h
    refine ⟨⟨c, hc, rfl⟩, fun ch' x' ha => ?_⟩
    cases ha
    exact hx
  · rename_i hne
    split_ifs at h
    obtain ⟨c, hc, rfl⟩ := Option.map_eq_some_iff.1 h
    refine ⟨⟨c, hc, rfl⟩, fun ch x ha => ?_⟩
    cases ha
    exact absurd rfl (hne ch)
  · rename_i hne
    obtain ⟨c, hc, rfl⟩ := Option.map_eq_some_iff.1 h
    exact ⟨⟨c, hc, rfl⟩, fun ch x ha => absurd ha (hne _ x)⟩

theorem managerStep_eq {a : TerminalAct} (h : s.managerStep session a = some t) :
    (∃ m, s.manager.step a = some m ∧ t = { s with manager := m }) ∧
      ∀ ch ev, a = .message ch ev → s.sessionOf ch ≠ some session := by
  unfold managerStep at h
  split at h
  · split_ifs at h with hx
    obtain ⟨m, hm, rfl⟩ := Option.map_eq_some_iff.1 h
    refine ⟨⟨m, hm, rfl⟩, fun ch ev ha => ?_⟩
    cases ha
    exact hx
  · rename_i hne
    obtain ⟨m, hm, rfl⟩ := Option.map_eq_some_iff.1 h
    exact ⟨⟨m, hm, rfl⟩, fun ch ev ha => absurd ha (hne ch ev)⟩

theorem handleStep_eq {ch : Channel} (h : s.handleStep ch = some t) :
    ∃ m ∈ s.posted, ∃ n, m.1 = ch ∧ s.manager.message ch m.2 = some n ∧
      t = { s with manager := n, posted := s.posted.eraseP (·.1 = ch) } := by
  unfold handleStep at h
  split at h
  · cases h
  · rename_i m hm
    obtain ⟨n, hn, rfl⟩ := Option.map_eq_some_iff.1 h
    exact ⟨m, List.mem_of_find?_eq_some hm, n, by simpa using List.find?_some hm, hn, rfl⟩

theorem Wired.manager (hw : s.Wired session) {a : TerminalAct} {m : TerminalSys}
    (hm : s.manager.step a = some m) {posted : List (Channel × TerminalEvent)}
    (hp : ∀ p ∈ posted, p ∈ s.posted) :
    Wired { s with manager := m, posted := posted } session :=
  ⟨fun c hc ch hch => session_kept hm (hw.task c hc ch hch),
    fun x ch hch => session_kept hm (hw.registered x ch hch),
    fun p hm' => session_kept hm (hw.posted p (hp p hm'))⟩

theorem wired_step {a : ScreenAct} (hw : s.Wired session) (h : s.step session a = some t) :
    t.Wired session := by
  cases a with
  | daemon a =>
    obtain ⟨d, -, rfl⟩ := Option.map_eq_some_iff.1 h
    exact ⟨hw.task, hw.registered, hw.posted⟩
  | command a =>
    obtain ⟨⟨c, hc, rfl⟩, hinvoke⟩ := commandStep_eq h
    refine ⟨fun k hk ch hch => ?_, fun x ch hch => ?_, hw.posted⟩
    · rcases task_kept hc hk with ⟨j, hj, hchannel, hs⟩ | ha
      · rw [hs]
        exact hw.task j hj ch (hchannel ▸ hch)
      · have hcmd : k.cmd = .attachSession ch := by
          unfold CmdTask.channel at hch
          split at hch <;> cases hch
          assumption
        exact hinvoke ch k.session (by rw [ha, hcmd])
    · rcases registered_kept hc hch with hx | ⟨j, hj, hchannel, rfl⟩
      · exact hw.registered x ch hx
      · exact hw.task j hj ch hchannel
  | dispatch cols rows =>
    simp only [step, dispatchStep] at h
    split at h
    · cases h
    · split at h <;> cases h
      · rename_i m hm
        obtain ⟨ch, hch, rfl⟩ := Option.map_eq_some_iff.1 hm
        refine ⟨hw.task, hw.registered, fun p hp => ?_⟩
        rcases List.mem_append.1 hp with hp | hp
        · exact hw.posted p hp
        · obtain rfl := List.mem_singleton.1 hp
          exact hw.registered session ch hch
      · exact ⟨hw.task, hw.registered, hw.posted⟩
  | handle ch =>
    obtain ⟨m, -, n, rfl, hn, rfl⟩ := handleStep_eq h
    exact hw.manager (a := .message m.1 m.2) hn fun p hp => List.mem_of_mem_eraseP hp
  | manager a =>
    obtain ⟨⟨m, hm, rfl⟩, -⟩ := managerStep_eq h
    exact hw.manager hm fun p hp => hp

/-! ## What is shown -/

/-- A step that rewrites the entry of one session, and keeps its text if it is this session's. -/
theorem shown_update {m : TerminalSys} {x : String} {o : Option TerminalEntry}
    (hm : m.entries = Function.update s.manager.entries x o)
    (ho : x = session → o.bind TerminalEntry.text = s.shown session) :
    shown { s with manager := m } session = s.shown session := by
  unfold shown at ho ⊢
  simp only [hm]
  by_cases hx : x = session
  · rw [← ho hx, hx, Function.update_self]
  · rw [Function.update_of_ne (Ne.symm hx)]

/-- A call that disposes of nothing leaves the text as it was, and so does a message for another
session. -/
theorem shown_manager {a : TerminalAct} {m : TerminalSys} (hm : s.manager.step a = some m)
    (hdispose : ∀ x, a = .dispose x → x ≠ session ∨ s.shown session = none)
    (hmessage : ∀ ch ev, a = .message ch ev → s.sessionOf ch ≠ some session) :
    shown { s with manager := m } session = s.shown session := by
  have hsettle : ∀ (i : ℕ) (err : Option String), s.manager.settle i err = some m →
      shown { s with manager := m } session = s.shown session := by
    intro i err h
    unfold TerminalSys.settle at h
    split at h
    · cases h
    · rename_i b hb
      rw [Option.ite_none_right_eq_some] at h
      obtain ⟨-, h⟩ := h
      dsimp only at h
      split at h
      · cases h
        rfl
      · rename_i e hlive
        obtain ⟨he, -⟩ := TerminalSys.mem_live.1 hlive
        obtain ⟨-, -, hterm, hshows⟩ :=
          @TerminalSys.settleAttach_id e b.generation err
        cases h
        refine shown_update (x := b.session) rfl fun hx => ?_
        rw [shown, ← hx, show s.manager.entries b.session = some e from he]
        simp [TerminalEntry.text, hterm, hshows]
  cases a with
  | ensure x size =>
    cases hm
    unfold TerminalSys.ensure
    split
    · rfl
    · rename_i hnone
      refine shown_update (x := x) rfl fun hx => ?_
      rw [shown, ← hx, hnone]
      rfl
  | attach x =>
    cases hm
    unfold TerminalSys.attach
    split
    · rfl
    · rename_i e he
      split_ifs
      · refine shown_update (x := x) rfl fun hx => ?_
        rw [shown, ← hx, he]
        rfl
      · rfl
  | resetAttachment x =>
    cases hm
    refine shown_update (x := x) rfl fun hx => ?_
    rw [shown, ← hx]
    cases s.manager.entries x <;> rfl
  | resetAllAttachments =>
    cases hm
    unfold shown TerminalSys.resetAllAttachments
    simp only
    cases s.manager.entries session <;> rfl
  | dispose x =>
    cases hm
    refine shown_update (x := x) rfl fun hx => ?_
    rw [(hdispose x rfl).resolve_left (not_not.2 hx)]
    rfl
  | resolve i => exact hsettle i none hm
  | reject i err => exact hsettle i (some err) hm
  | message i ev =>
    simp only [TerminalSys.step, TerminalSys.message] at hm
    split at hm
    · cases hm
    · rename_i b hb
      have hne : b.session ≠ session := by
        rintro rfl
        exact hmessage i ev rfl (by rw [sessionOf, hb]; rfl)
      split at hm <;> cases hm
      · rfl
      · exact shown_update (x := b.session) rfl fun hx => absurd hx hne

/-- A message of one of the session's channels takes the text along, when there is an entry. -/
theorem shown_message {ch : Channel} {ev : TerminalEvent} {m : TerminalSys}
    (hm : s.manager.message ch ev = some m) (hs : s.sessionOf ch = some session)
    (he : (s.manager.entries session).isSome) (posted : List (Channel × TerminalEvent)) :
    shown { s with manager := m, posted := posted } session
      = ev.applyTo (s.shown session) := by
  obtain ⟨e, he⟩ := Option.isSome_iff_exists.1 he
  obtain ⟨b, hb, rfl⟩ := Option.map_eq_some_iff.1 hs
  unfold TerminalSys.message at hm
  rw [hb] at hm
  simp only [he, Option.some.injEq] at hm
  subst hm
  unfold shown
  rw [he]
  simp only [TerminalSys.setEntry, Function.update_self, Option.bind_some]
  cases ev with
  | replay cols rows content =>
    simp [TerminalEntry.handle, TerminalEntry.text, TerminalEntry.applyReplay, Terminal.write,
      Terminal.resize, Terminal.reset, TerminalEvent.applyTo]
  | output bytes =>
    cases hshows : e.shows with
    | none => simp [TerminalEntry.handle, TerminalEntry.text, TerminalEntry.writeOutput, hshows,
        TerminalEvent.applyTo]
    | some i => simp [TerminalEntry.handle, TerminalEntry.text, TerminalEntry.writeOutput, hshows,
        Terminal.write, TerminalEvent.applyTo]

/-! ## The invariant -/

theorem settled_dispatch {cols rows : ℕ} {s t : ScreenSys}
    (hsafe : s.safe session (.dispatch cols rows))
    (h : s.dispatchStep session cols rows = some t) : t.settled session = s.settled session := by
  obtain ⟨ch, hch⟩ := Option.isSome_iff_exists.1 (by simpa [safe] using hsafe)
  unfold dispatchStep at h
  split at h
  · cases h
  · rename_i p wire hwire
    simp only [Broker.dispatchPush, hch, Option.map_some, Option.some.injEq] at h
    subst h
    have hp : ∀ text, (p.event cols rows).applyTo text = p.applyTo text := by
      intro text
      cases p <;> rfl
    simp only [settled, hwire, List.map_append, List.map_cons, List.map_nil, List.foldl_append,
      List.foldl_cons, List.foldl_nil, hp]
    rfl

theorem settled_handle {ch : Channel} (hw : s.Wired session) (hsafe : s.safe session (.handle ch))
    (h : s.handleStep ch = some t) : t.settled session = s.settled session := by
  simp only [safe, Bool.decide_and, Bool.and_eq_true, decide_eq_true_eq] at hsafe
  obtain ⟨hhead, he⟩ := hsafe
  cases hp : s.posted with
  | nil => simp [hp] at hhead
  | cons m rest =>
    obtain rfl : m.1 = ch := by simpa [hp] using hhead
    unfold handleStep at h
    simp only [hp, List.find?_cons, decide_true] at h
    obtain ⟨n, hn, rfl⟩ := Option.map_eq_some_iff.1 h
    have hs := hw.posted m (by rw [hp]; exact List.mem_cons_self)
    simp only [settled, hp, List.eraseP_cons_of_pos, decide_true, List.map_cons, List.foldl_cons]
    rw [shown_message hn hs he]

theorem screenInv_step {a : ScreenAct} (hI : s.ScreenInv session cap)
    (hsafe : s.safe session a) (h : s.step session a = some t) : t.ScreenInv session cap := by
  have hw := wired_step hI.wired h
  cases a with
  | daemon a =>
    obtain ⟨d, hd, rfl⟩ := Option.map_eq_some_iff.1 h
    refine ⟨AttachSys.attachInv_step hI.daemon hsafe hd, hw, ?_⟩
    obtain ⟨sent, hsent⟩ := received_prefix hd
    have hsettled : settled { s with
        daemon := d
        wire := s.wire ++ d.received.drop s.daemon.received.length } session
        = sent.foldl AttachPush.applyTo (s.settled session) := by
      rw [← hsent, List.drop_left]
      simp only [settled, List.foldl_append]
      rfl
    rw [hsettled, hI.settled, ← List.foldl_append, hsent]
  | command a =>
    obtain ⟨⟨c, hc, rfl⟩, -⟩ := commandStep_eq h
    exact ⟨hI.daemon, hw, hI.settled⟩
  | dispatch cols rows =>
    have hd : t.daemon = s.daemon := by
      simp only [step, dispatchStep] at h
      split at h
      · cases h
      · split at h <;> cases h <;> rfl
    exact ⟨hd ▸ hI.daemon, hw, by rw [settled_dispatch hsafe h, hd]; exact hI.settled⟩
  | handle ch =>
    have hd : t.daemon = s.daemon := by
      obtain ⟨m, -, n, -, -, rfl⟩ := handleStep_eq h
      rfl
    exact ⟨hd ▸ hI.daemon, hw, by rw [settled_handle hI.wired hsafe h, hd]; exact hI.settled⟩
  | manager a =>
    obtain ⟨⟨m, hm, rfl⟩, hmessage⟩ := managerStep_eq h
    refine ⟨hI.daemon, hw, ?_⟩
    have hshown : shown { s with manager := m } session = s.shown session := by
      refine shown_manager hm (fun x ha => ?_) hmessage
      subst ha
      simpa [safe] using hsafe
    rw [← hI.settled]
    simp only [settled, hshown]

theorem screenInv_init (session : String) (cap : ℕ) : (init cap).ScreenInv session cap where
  daemon := AttachSys.attachInv_init cap
  wired := by
    refine ⟨fun c hc => ?_, fun x ch hch => ?_, fun m hm => ?_⟩
    · cases hc
    · cases hch
    · cases hm
  settled := rfl

theorem ScreenInv.displayed (hI : s.ScreenInv session cap) : s.Displayed session cap := by
  intro text htext
  rw [hI.settled, foldl_applyTo] at htext
  obtain ⟨⟨content, out⟩, hfrom, rfl⟩ := Option.map_eq_some_iff.1 htext
  obtain ⟨k, m, hkm, hm, hsnap, hcarry, hstrip, hheld, hrest⟩ :=
    hI.daemon.delivered content out hfrom
  exact ⟨k, m, hkm, hm, hcarry, by rw [hsnap, hstrip, List.append_assoc], hheld, hrest⟩

/-- However the daemon, the connection, the commands, the broker, the channels and the manager
interleave, in every run of safe steps the xterm is on its way to show the ring's snapshot and every
byte given to it since, once and in order. -/
theorem displayed_of_safe (session : String) (cap : ℕ) {as : List ScreenAct} {t : ScreenSys}
    (hsafe : Runs.Along (step · session) (fun s a => s.safe session a) (init cap) as)
    (hr : Runs.run (step · session) (init cap) as = some t) : t.Displayed session cap :=
  (hsafe.keeps (I := fun u : ScreenSys => u.ScreenInv session cap)
    (fun _ _ _ hI hC h => screenInv_step hI hC h) (screenInv_init session cap) hr).displayed

/-- The daemon reads `hi` and attaches the connection, and then reads `!`. -/
def said : List AttachAct :=
  [.read [104, 105], .reader, .reader, .request] ++ List.replicate 6 .attach

def saidNext : List AttachAct := [.read [33], .reader, .reader] ++ List.replicate 4 (.forward 0)

/-- A terminal is mounted meanwhile. -/
def mounted : List ScreenAct :=
  [.manager (.ensure "s" none), .manager (.attach "s"),
    .command (.invoke (.attachSession 0) "s"), .command (.register 0)]
    ++ said.map .daemon ++ [.dispatch 80 24] ++ saidNext.map .daemon
    ++ [.handle 0, .dispatch 80 24, .handle 0]

theorem displayed_mounted : ∃ t, Runs.run (step · "s") (init 64) mounted = some t ∧
    t.shown "s" = some [104, 105, 33] ∧ t.settled "s" = t.shown "s" ∧ t.Displayed "s" 64 := by
  have hlast : (Runs.run (step · "s") (init 64) mounted).map
      (fun t => (t.shown "s", t.settled "s")) =
      some (some [104, 105, 33], some [104, 105, 33]) := by decide +kernel
  obtain ⟨t, ht, heq⟩ := Option.map_eq_some_iff.1 hlast
  simp only [Prod.mk.injEq] at heq
  exact ⟨t, ht, heq.1, heq.2.trans heq.1.symm, displayed_of_safe "s" 64 (by decide +kernel) ht⟩

end ScreenSys

end BuilderPro
