import BuilderPro.App.Attachments

/-!
# The terminals

`TerminalManager` keeps one xterm for a session and fires one `attach_session` at a time for it.
Whether an attach settles goes by its entry and generation, but what its channel delivers goes to
whatever entry the session has.
-/

namespace BuilderPro

/-- An xterm, with what has been written to it since its last reset. -/
structure Terminal where
  cols : ℕ
  rows : ℕ
  written : List UInt8
  deriving DecidableEq

namespace Terminal

variable (term : Terminal)

/-- `new Terminal()`. -/
def new : Terminal := ⟨80, 24, []⟩

def reset : Terminal := { term with written := [] }

def resize (cols rows : ℕ) : Terminal := { term with cols := cols, rows := rows }

def write (bytes : List UInt8) : Terminal := { term with written := term.written ++ bytes }

end Terminal

inductive AttachState
  | detached
  | attaching
  | attached
  deriving DecidableEq

/-- An entry of the manager.  Its `id` stands for the object, an in-flight promise for the attach it
is of; `shows` is the attach whose Replay has been applied last. -/
structure TerminalEntry where
  id : ℕ
  term : Terminal
  attach : AttachState
  attachInFlight : Option ℕ
  attachGeneration : ℕ
  attachError : Option String
  shows : Option ℕ
  deriving DecidableEq

namespace TerminalEntry

variable (e : TerminalEntry)

def invalidateAttach : TerminalEntry :=
  { e with
    attach := .detached
    attachInFlight := none
    attachGeneration := e.attachGeneration + 1 }

/-- Whether `attach` makes a request. -/
def fires : Bool :=
  e.attach ≠ .attached ∧ ¬(e.attach = .attaching ∧ e.attachInFlight.isSome)

def applyReplay (cols rows : ℕ) (content : List UInt8) : TerminalEntry :=
  { e with term := (e.term.reset.resize cols rows).write content }

def writeOutput (bytes : List UInt8) : TerminalEntry :=
  { e with term := e.term.write bytes }

/-- The settlement of an attach of some generation, fired for this entry: `err` is the message of a
rejection. -/
def settleAttach (generation : ℕ) (err : Option String) : TerminalEntry :=
  let e := if e.attachGeneration = generation ∧ e.attach = .attaching then
    { e with
      attach := if err.isSome then .detached else .attached
      attachInFlight := none }
    else e
  { e with attachError := err <|> e.attachError }

/-- What the handler of an attach's channel does with a message. -/
def handle (i : ℕ) : TerminalEvent → TerminalEntry
  | .replay cols rows content => { e.applyReplay cols rows content with shows := some i }
  | .output bytes => e.writeOutput bytes

end TerminalEntry

/-- An `attach_session` that has been fired, what its closure holds, and what its channel has
delivered. -/
structure AttachCall where
  session : String
  entry : ℕ
  generation : ℕ
  pending : Bool
  messages : List TerminalEvent
  deriving DecidableEq

/-- The manager, the attaches there have been, how many entries each session has had, and the
messages that have been written for an attach that was no longer the one of its terminal. -/
structure TerminalSys where
  entries : String → Option TerminalEntry
  calls : List AttachCall
  created : String → ℕ
  stale : List (ℕ × TerminalEvent)

inductive TerminalAct
  | ensure (session : String) (size : Option (ℕ × ℕ))
  | attach (session : String)
  | resetAttachment (session : String)
  | resetAllAttachments
  | dispose (session : String)
  | resolve (i : ℕ)
  | reject (i : ℕ) (err : String)
  | message (i : ℕ) (ev : TerminalEvent)
  deriving DecidableEq

namespace TerminalSys

variable (s : TerminalSys)

def setEntry (session : String) (e : Option TerminalEntry) : TerminalSys :=
  { s with entries := Function.update s.entries session e }

def ensure (session : String) (size : Option (ℕ × ℕ)) : TerminalSys :=
  match s.entries session with
  | some _ => s
  | none =>
    let term := match size with
      | some (cols, rows) => Terminal.new.resize cols rows
      | none => Terminal.new
    { s.setEntry session (some ⟨s.created session, term, .detached, none, 0, none, none⟩) with
      created := Function.update s.created session (s.created session + 1) }

def attach (session : String) : TerminalSys :=
  match s.entries session with
  | none => s
  | some e =>
    if e.fires then
      { s.setEntry session (some { e with
          attach := .attaching
          attachInFlight := some s.calls.length
          attachError := none }) with
        calls := s.calls ++ [⟨session, e.id, e.attachGeneration, true, []⟩] }
    else s

def resetAttachment (session : String) : TerminalSys :=
  s.setEntry session ((s.entries session).map TerminalEntry.invalidateAttach)

def resetAllAttachments : TerminalSys :=
  { s with entries := fun session => (s.entries session).map TerminalEntry.invalidateAttach }

def dispose (session : String) : TerminalSys := s.setEntry session none

/-- The entry of an attach's session, if it is the one the attach was fired for. -/
def live (a : AttachCall) : Option TerminalEntry :=
  (s.entries a.session).filter fun e => e.id = a.entry

/-- An attach in flight is settled. -/
def settle (i : ℕ) (err : Option String) : Option TerminalSys :=
  match s.calls[i]? with
  | none => none
  | some a =>
    if a.pending then
      let t := { s with calls := s.calls.set i { a with pending := false } }
      match s.live a with
      | none => some t
      | some e => some (t.setEntry a.session (some (e.settleAttach a.generation err)))
    else none

/-- The attach is the last one of its session, and neither a reset nor a disposal has come since. -/
def Current (i : ℕ) (a : AttachCall) : Prop :=
  (∃ e ∈ s.live a, e.attachGeneration = a.generation)
    ∧ ∀ b ∈ s.calls.drop (i + 1), b.session ≠ a.session

instance (i : ℕ) (a : AttachCall) : Decidable (s.Current i a) :=
  inferInstanceAs (Decidable (_ ∧ _))

/-- A message of an attach's channel, whose handler knows the session alone. -/
def message (i : ℕ) (ev : TerminalEvent) : Option TerminalSys :=
  match s.calls[i]? with
  | none => none
  | some a =>
    let t := { s with calls := s.calls.set i { a with messages := a.messages ++ [ev] } }
    match s.entries a.session with
    | none => some t
    | some e => some { t.setEntry a.session (some (e.handle i ev)) with
      stale := if s.Current i a then s.stale else s.stale ++ [(i, ev)] }

def step (s : TerminalSys) : TerminalAct → Option TerminalSys
  | .ensure session size => some (s.ensure session size)
  | .attach session => some (s.attach session)
  | .resetAttachment session => some (s.resetAttachment session)
  | .resetAllAttachments => some s.resetAllAttachments
  | .dispose session => some (s.dispose session)
  | .resolve i => s.settle i none
  | .reject i err => s.settle i (some err)
  | .message i ev => s.message i ev

def init : TerminalSys := ⟨fun _ => none, [], fun _ => 0, []⟩

end TerminalSys

/-- What the messages of a channel leave on an xterm: its last Replay and the outputs that follow
it. -/
def textOf (evs : List TerminalEvent) : Option (List UInt8) :=
  evs.foldl (fun text ev =>
    match ev with
    | .replay _ _ content => some content
    | .output bytes => text.map (· ++ bytes)) none

namespace TerminalSys

variable (s : TerminalSys)

/-- Whether every terminal shows one Replay and the outputs of its channel, nothing has been written
for a superseded or invalidated attach, and no two attaches of one session and generation are in
flight. -/
structure ShowsLatest : Prop where
  text : ∀ session, ∀ e ∈ s.entries session, ∀ i ∈ e.shows, ∀ a ∈ s.calls[i]?,
    textOf a.messages = some e.term.written
  stale : s.stale = []
  inFlight : ∀ (i j : ℕ), ∀ a ∈ s.calls[i]?, ∀ b ∈ s.calls[j]?,
    a.pending = true → b.pending = true → a.session = b.session → a.generation = b.generation →
      i = j

/-- Whether a message comes from the current attach of its session's terminal, and not ahead of its
Replay when the terminal shows another's; and whether an attach on a terminal that has been created
anew finds none of the same generation in flight for an earlier one. -/
def InTurn : TerminalAct → Prop
  | .message i ev => ∀ a ∈ s.calls[i]?, ∀ e ∈ s.entries a.session, s.Current i a
      ∧ match ev with
        | .replay _ _ _ => True
        | .output bytes => bytes ≠ [] → ∀ j ∈ e.shows, j = i
  | .attach session => ∀ e ∈ s.entries session, e.fires = true → ∀ a ∈ s.calls,
    a.session = session → a.pending = true → a.generation = e.attachGeneration → a.entry = e.id
  | _ => True

instance (a : TerminalAct) : Decidable (s.InTurn a) := by
  unfold InTurn
  split
  · split <;> infer_instance
  · infer_instance
  · infer_instance

end TerminalSys

end BuilderPro
