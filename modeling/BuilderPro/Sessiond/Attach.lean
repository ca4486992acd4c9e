import BuilderPro.Lib.Runs
import BuilderPro.Sessiond.LiveStrip
import BuilderPro.Sessiond.Scrollback

/-!
# Attaching to a session

`attach.rs`: a connection subscribes to a session's output, is sent the ring's snapshot, and then
the chunks its forwarder finds in its queue, stripped.  The connection's requests run one after
another, next to the PTY's reader, the session's exit and the forwarders of every attachment the
connection has made.
-/

namespace BuilderPro

/-- What the connection is sent of a session. -/
inductive AttachPush
  | replay (content : List UInt8)
  | output (bytes : List UInt8)
  deriving DecidableEq

inductive AttachEntry
  | live (subId : ℕ)
  | replayOnly
  deriving DecidableEq

/-- The reader thread's steps on the ring and the sinks. -/
inductive FanoutPc
  | reading
  | ring (chunk : List UInt8)
  | broadcast (chunk : List UInt8)
  | setInactive
  | clear
  | done
  deriving DecidableEq

/-- A forwarder's loop; it is `unstarted` until `attach_live` spawns it. -/
inductive ForwardPc
  | unstarted
  | poll
  | recv
  | check (bytes : List UInt8)
  | send (cleaned : List UInt8)
  | done
  deriving DecidableEq

/-- A subscription: its channel, whether the session's sinks hold the sending end, and its
forwarder. -/
structure Sub where
  queue : List (List UInt8)
  subscribed : Bool
  cancel : Bool
  stripper : LiveOscStripper
  pc : ForwardPc

/-- `AttachRegistry::attach` on behalf of the connection. -/
inductive AttachPc
  | idle
  | checkMeta
  | subscribe
  | snapshot (subId : ℕ)
  | snapshotOnly
  | send (entry : AttachEntry) (content : List UInt8)
  | spawn (subId : ℕ)
  | insert (entry : AttachEntry)
  | unsubscribe (subId : ℕ)
  | cancel (subId : ℕ)
  deriving DecidableEq

/-- What a sent replay leads to: only a live attachment has a forwarder to spawn. -/
def AttachEntry.replayed : AttachEntry → AttachPc
  | .live i => .spawn i
  | .replayOnly => .insert .replayOnly

/-- What an entry replaced by a newer one leads to: a live one is retired. -/
def AttachEntry.replaced : Option AttachEntry → AttachPc
  | some (.live j) => .unsubscribe j
  | _ => .idle

structure AttachSys where
  ring : ScrollbackRing
  reader : FanoutPc
  isActive : Bool
  /-- Every subscription the connection has made, by its id. -/
  subs : List Sub
  attach : AttachPc
  entry : Option AttachEntry
  received : List AttachPush
  /-- Every chunk the ring was given; a record of the run, not of the code. -/
  pushed : List (List UInt8)
  /-- The attachment of the latest replay; a record of the run, not of the code. -/
  latest : Option AttachEntry

inductive AttachAct
  | read (chunk : List UInt8)
  | eof
  | reader
  | childExited
  | removeSession
  | request
  | attach
  | forward (i : ℕ)
  deriving DecidableEq

namespace Sub

/-- As `subscribe_output` leaves it. -/
def new : Sub := ⟨[], true, false, LiveOscStripper.new, .unstarted⟩

/-- A broadcast: a queue whose receiver is gone is pruned. -/
def offer (u : Sub) (chunk : List UInt8) : Sub :=
  if u.subscribed then
    if u.pc = .done then { u with subscribed := false } else { u with queue := u.queue ++ [chunk] }
  else u

end Sub

namespace AttachSys

def init (cap : ℕ) : AttachSys where
  ring := ScrollbackRing.new cap
  reader := .reading
  isActive := true
  subs := []
  attach := .idle
  entry := none
  received := []
  pushed := []
  latest := none

variable (s : AttachSys)

def readerStep : Option AttachSys :=
  match s.reader with
  | .reading => none
  | .ring chunk =>
    some { s with
      ring := s.ring.push chunk
      pushed := s.pushed ++ [chunk]
      reader := .broadcast chunk }
  | .broadcast chunk => some { s with subs := s.subs.map (·.offer chunk), reader := .reading }
  | .setInactive => some { s with isActive := false, reader := .clear }
  | .clear =>
    some { s with subs := s.subs.map fun u => { u with subscribed := false }, reader := .done }
  | .done => none

def attachStep : Option AttachSys :=
  match s.attach with
  | .idle => none
  | .checkMeta => some { s with attach := if s.isActive then .subscribe else .snapshotOnly }
  | .subscribe =>
    if s.isActive then
      some { s with subs := s.subs ++ [Sub.new], attach := .snapshot s.subs.length }
    else some { s with attach := .snapshotOnly }
  | .snapshot i => some { s with attach := .send (.live i) s.ring.snapshot }
  | .snapshotOnly => some { s with attach := .send .replayOnly s.ring.snapshot }
  | .send entry content =>
    some { s with
      received := s.received ++ [.replay content]
      latest := some entry
      attach := entry.replayed }
  | .spawn i =>
    some { s with
      subs := s.subs.modify i fun u => { u with pc := .poll }
      attach := .insert (.live i) }
  | .insert entry =>
    some { s with entry := some entry, attach := AttachEntry.replaced s.entry }
  | .unsubscribe j =>
    some { s with
      subs := s.subs.modify j fun u => { u with subscribed := false }
      attach := .cancel j }
  | .cancel j =>
    some { s with subs := s.subs.modify j fun u => { u with cancel := true }, attach := .idle }

def setSub (i : ℕ) (u : Sub) : AttachSys := { s with subs := s.subs.set i u }

def forwardStep (i : ℕ) (u : Sub) : Option AttachSys :=
  match u.pc with
  | .unstarted => none
  | .poll => some (s.setSub i { u with pc := if u.cancel then .done else .recv })
  | .recv =>
    match u.queue with
    | bytes :: queue => some (s.setSub i { u with queue := queue, pc := .check bytes })
    | [] => some (s.setSub i { u with pc := if u.subscribed then .poll else .done })
  | .check bytes =>
    if u.cancel then some (s.setSub i { u with pc := .done })
    else
      let r := u.stripper.strip bytes
      some (s.setSub i { u with stripper := r.2, pc := if r.1 = [] then .poll else .send r.1 })
  | .send cleaned =>
    some (setSub { s with received := s.received ++ [.output cleaned] } i { u with pc := .poll })
  | .done => none

def step : AttachAct → Option AttachSys
  | .read chunk =>
    match s.reader with
    | .reading => some { s with reader := .ring chunk }
    | _ => none
  | .eof =>
    match s.reader with
    | .reading => some { s with reader := .setInactive }
    | _ => none
  | .reader => s.readerStep
  | .childExited => some { s with isActive := false }
  | .removeSession => some { s with entry := none }
  | .request =>
    match s.attach with
    | .idle => some { s with attach := .checkMeta }
    | _ => none
  | .attach => s.attachStep
  | .forward i => s.subs[i]?.bind (s.forwardStep i)

def run (as : List AttachAct) : Option AttachSys := Runs.run step s as

end AttachSys

end BuilderPro
