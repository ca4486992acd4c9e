import BuilderPro.Lib.Runs
import BuilderPro.Sessiond.Session

/-!
# The threads of one session

A session's reader, wait and ticker threads run next to the request that creates it, the task that
persists its end, the flush sweeps and the requests that close it.  A step takes one lock, or writes
the database once; what a thread holds between two steps is in its program counter.
-/

namespace BuilderPro

/-- The pushes that announce a session's life. -/
inductive Push
  | sessionCreated (m : SessionMeta)
  | childExited (id : String) (code : Option UInt8) (signal : Option String)
  deriving DecidableEq, Repr

/-- The reader thread of `Supervisor::create`. -/
inductive ReaderPc
  | notStarted
  | reading
  | advance (ev : OscEvent) (evs : List OscEvent) (chunk : List UInt8)
  | record (ev : OscEvent) (evs : List OscEvent) (chunk : List UInt8)
  | ring (chunk : List UInt8) (statusDirty : Bool)
  | recompute
  | store (running : Bool)
  | setInactive
  | done
  deriving DecidableEq

/-- The wait thread, and `on_exited` which runs on it. -/
inductive WaiterPc
  | notStarted
  | waiting
  | setInactive (x : ExitRecord)
  | setCode (x : ExitRecord)
  | setSignal (x : ExitRecord)
  | setLifecycle (x : ExitRecord)
  | setWaiting (x : ExitRecord)
  | getMeta (x : ExitRecord)
  | metaActive (x : ExitRecord) (m : SessionMeta)
  | snapshot (x : ExitRecord) (m : SessionMeta)
  | drain (x : ExitRecord) (m : SessionMeta) (scrollback : Option (List UInt8))
  | spawn (x : ExitRecord) (m : SessionMeta) (scrollback : Option (List UInt8))
      (events : List CommandEvent)
  | done (x : ExitRecord)
  deriving DecidableEq

/-- The exit whose record is complete. -/
def WaiterPc.recorded : WaiterPc → Option ExitRecord
  | .getMeta x => some x
  | .metaActive x _ => some x
  | .snapshot x _ => some x
  | .drain x _ _ => some x
  | .spawn x _ _ _ => some x
  | .done x => some x
  | _ => none

inductive TickerPc
  | notStarted
  | sleeping
  | checkActive
  | recompute
  | store (running : Bool)
  | done
  deriving DecidableEq

/-- The `CreateSession` request, from where `Supervisor::create` starts the threads. -/
inductive CreatorPc
  | spawnReader
  | spawnWaiter
  | spawnTicker
  | insert
  | onCreated
  | createdActive (m : SessionMeta)
  | announce (m : SessionMeta)
  | getMeta
  | metaActive (m : SessionMeta)
  | track (m : SessionMeta)
  | persist (m : SessionMeta)
  | replied
  | failed
  deriving DecidableEq

/-- `flush_session_final`, and the broadcast that follows it in its task. -/
inductive FlushPc
  | idle
  | persist (x : ExitRecord) (m : SessionMeta) (scrollback : Option (List UInt8))
      (events : List CommandEvent)
  | scrollback (x : ExitRecord) (scrollback : Option (List UInt8)) (events : List CommandEvent)
  | events (x : ExitRecord) (events : List CommandEvent)
  | announce (x : ExitRecord)
  | done
  deriving DecidableEq

/-- What a run of `flush_scrollback_once` does for the session. -/
inductive SweepPc
  | list
  | getMeta
  | metaActive (m : SessionMeta)
  | persist (m : SessionMeta)
  | snapshot
  | scrollback (bytes : List UInt8)
  | drain
  | events (events : List CommandEvent)
  | done
  deriving DecidableEq

inductive KillReply
  | ack
  | noSuchSession
  deriving DecidableEq, Repr

/-- `close_session`: `Supervisor::kill`, or the honest close of an inactive session. -/
inductive KillPc
  | get
  | signal
  | joinWait
  | joinReader
  | joinTicker
  | remove
  | getMeta
  | metaActive
  | removeInactive
  | untrack
  | deleteRows
  | done (reply : KillReply)
  deriving DecidableEq

structure Sess where
  shared : Shared
  parser : OscParser
  reader : ReaderPc
  waiter : WaiterPc
  ticker : TickerPc
  tickerStop : Bool
  creator : CreatorPc
  /-- The session is in the supervisor's map. -/
  inMap : Bool
  /-- The session's id is in `live_sessions`. -/
  live : Bool
  flush : FlushPc
  sweeps : List SweepPc
  kills : List KillPc
  rows : SessionRows
  pushes : List Push
  /-- Every command event the reader has pushed; a record of the run, not of the code. -/
  emitted : List CommandEvent

inductive Act
  | create
  | read (chunk : List UInt8)
  | eof
  | reader (now : Int) (g : Signals)
  | exit (status : ExitStatus)
  | waiter
  | ticker (g : Signals)
  | flush
  | startSweep
  | sweep (i : ℕ)
  | startKill
  | kill (i : ℕ)
  deriving DecidableEq

namespace Sess

/-- Before any thread has started. -/
def init (shared : Shared) : Sess where
  shared := shared
  parser := OscParser.new
  reader := .notStarted
  waiter := .notStarted
  ticker := .notStarted
  tickerStop := false
  creator := .spawnReader
  inMap := false
  live := false
  flush := .idle
  sweeps := []
  kills := []
  rows := SessionRows.empty
  pushes := []
  emitted := []

variable (s : Sess)

def createStep : Option Sess :=
  match s.creator with
  | .spawnReader => some { s with reader := .reading, creator := .spawnWaiter }
  | .spawnWaiter => some { s with waiter := .waiting, creator := .spawnTicker }
  | .spawnTicker => some { s with ticker := .sleeping, creator := .insert }
  | .insert => some { s with inMap := true, creator := .onCreated }
  | .onCreated =>
    if s.inMap then some { s with creator := .createdActive s.shared.getMeta }
    else some { s with creator := .getMeta }
  | .createdActive m => some { s with creator := .announce (m.withActive s.shared.isActive) }
  | .announce m => some { s with pushes := s.pushes ++ [.sessionCreated m], creator := .getMeta }
  | .getMeta =>
    if s.inMap then some { s with creator := .metaActive s.shared.getMeta }
    else some { s with creator := .failed }
  | .metaActive m => some { s with creator := .track (m.withActive s.shared.isActive) }
  | .track m => some { s with live := true, creator := .persist m }
  | .persist m => some { s with rows := s.rows.upsertSession m, creator := .replied }
  | .replied => none
  | .failed => none

/-- Where the reader goes once it has dealt with some of a chunk's events. -/
def afterEvents (statusDirty : Bool) (chunk : List UInt8) : List OscEvent → ReaderPc
  | [] => .ring chunk statusDirty
  | ev :: evs => .advance ev evs chunk

def readStep (chunk : List UInt8) : Option Sess :=
  match s.reader with
  | .reading =>
    let r := s.parser.feed chunk
    some { s with parser := r.2, reader := afterEvents false chunk r.1 }
  | _ => none

def eofStep : Option Sess :=
  match s.reader with
  | .reading => some { s with reader := .setInactive }
  | _ => none

def readerStep (now : Int) (g : Signals) : Option Sess :=
  match s.reader with
  | .advance ev evs chunk =>
    some { s with shared := s.shared.advance ev, reader := .record ev evs chunk }
  | .record ev evs chunk =>
    some { s with
      shared := s.shared.record ev now
      emitted := s.emitted ++ (s.shared.commandEvent ev now).toList
      reader := afterEvents true chunk evs }
  | .ring chunk statusDirty =>
    some { s with
      shared := s.shared.pushScrollback chunk
      reader := if statusDirty then .recompute else .reading }
  | .recompute => some { s with reader := .store (s.shared.lifecycle = .running) }
  | .store running => some { s with shared := s.shared.storeWaiting running g, reader := .reading }
  | .setInactive => some { s with shared := s.shared.setInactive, reader := .done }
  | _ => none

def exitStep (status : ExitStatus) : Option Sess :=
  match s.waiter with
  | .waiting => some { s with waiter := .setInactive status.record }
  | _ => none

def waiterStep : Option Sess :=
  match s.waiter with
  | .setInactive x => some { s with shared := s.shared.setInactive, waiter := .setCode x }
  | .setCode x =>
    some { s with shared := { s.shared with exitCode := x.code }, waiter := .setSignal x }
  | .setSignal x =>
    some { s with shared := { s.shared with exitSignal := x.signal }, waiter := .setLifecycle x }
  | .setLifecycle x =>
    some { s with shared := { s.shared with lifecycle := x.lifecycle }, waiter := .setWaiting x }
  | .setWaiting x =>
    some { s with shared := { s.shared with waiting := false }, waiter := .getMeta x }
  | .getMeta x =>
    if s.inMap then some { s with waiter := .metaActive x s.shared.getMeta }
    else some { s with waiter := .done x }
  | .metaActive x m => some { s with waiter := .snapshot x (m.withActive s.shared.isActive) }
  | .snapshot x m =>
    some { s with
      waiter := .drain x m (if s.inMap then some s.shared.scrollback.snapshot else none) }
  | .drain x m scrollback =>
    if s.inMap then
      let r := s.shared.drainCommandEvents
      some { s with shared := r.2, waiter := .spawn x m scrollback r.1 }
    else some { s with waiter := .spawn x m scrollback [] }
  | .spawn x m scrollback events =>
    some { s with flush := .persist x m scrollback events, waiter := .done x }
  | _ => none

def tickerStep (g : Signals) : Option Sess :=
  match s.ticker with
  | .sleeping => some { s with ticker := if s.tickerStop then .done else .checkActive }
  | .checkActive => some { s with ticker := if s.shared.isActive then .recompute else .done }
  | .recompute => some { s with ticker := .store (s.shared.lifecycle = .running) }
  | .store running => some { s with shared := s.shared.storeWaiting running g, ticker := .sleeping }
  | _ => none

def flushStep : Option Sess :=
  match s.flush with
  | .persist x m scrollback events =>
    some { s with rows := s.rows.upsertSession m, flush := .scrollback x scrollback events }
  | .scrollback x (some bytes) events =>
    some { s with rows := s.rows.appendScrollback bytes, flush := .events x events }
  | .scrollback x none events => some { s with flush := .events x events }
  | .events x events =>
    some { s with rows := s.rows.appendCommandEvents events, flush := .announce x }
  | .announce x =>
    some { s with
      pushes := s.pushes ++ [.childExited s.shared.id x.code x.signal], flush := .done }
  | _ => none

def setSweep (i : ℕ) (pc : SweepPc) : Sess := { s with sweeps := s.sweeps.set i pc }

def setKill (i : ℕ) (pc : KillPc) : Sess := { s with kills := s.kills.set i pc }

def sweepStep (i : ℕ) (pc : SweepPc) : Option Sess :=
  match pc with
  | .list => some (s.setSweep i (if s.rows.session.isSome then .getMeta else .done))
  | .getMeta => some (s.setSweep i (if s.inMap then .metaActive s.shared.getMeta else .done))
  | .metaActive m =>
    some (s.setSweep i (if s.shared.isActive then .persist (m.withActive true) else .done))
  | .persist m => some ({ s with rows := s.rows.upsertSession m }.setSweep i .snapshot)
  | .snapshot =>
    some (s.setSweep i (if s.inMap then .scrollback s.shared.scrollback.snapshot else .drain))
  | .scrollback bytes => some ({ s with rows := s.rows.appendScrollback bytes }.setSweep i .drain)
  | .drain =>
    if s.inMap then
      let r := s.shared.drainCommandEvents
      some ({ s with shared := r.2 }.setSweep i (.events r.1))
    else some (s.setSweep i .done)
  | .events events => some ({ s with rows := s.rows.appendCommandEvents events }.setSweep i .done)
  | .done => none

def killStep (i : ℕ) (pc : KillPc) : Option Sess :=
  match pc with
  | .get => some (s.setKill i (if s.inMap then .signal else .getMeta))
  | .signal => some ({ s with tickerStop := true }.setKill i .joinWait)
  | .joinWait =>
    -- `wait_thread`'s guard is held through the join, so a second kill waits here as well
    match s.waiter with
    | .done _ => some (s.setKill i .joinReader)
    | _ => none
  | .joinReader =>
    -- the join is bounded: the reader may still run
    some (s.setKill i .joinTicker)
  | .joinTicker =>
    match s.ticker with
    | .done => some (s.setKill i .remove)
    | _ => none
  | .remove => some ({ s with inMap := false }.setKill i (.done .ack))
  | .getMeta => some (s.setKill i (if s.inMap then .metaActive else .done .noSuchSession))
  | .metaActive =>
    some (s.setKill i (if s.shared.isActive then .done .noSuchSession else .removeInactive))
  | .removeInactive =>
    some ({ s with inMap := s.inMap && s.shared.isActive }.setKill i .untrack)
  | .untrack => some ({ s with live := false }.setKill i .deleteRows)
  | .deleteRows => some ({ s with rows := SessionRows.empty }.setKill i (.done .ack))
  | .done _ => none

def step : Act → Option Sess
  | .create => s.createStep
  | .read chunk => s.readStep chunk
  | .eof => s.eofStep
  | .reader now g => s.readerStep now g
  | .exit status => s.exitStep status
  | .waiter => s.waiterStep
  | .ticker g => s.tickerStep g
  | .flush => s.flushStep
  | .startSweep => some { s with sweeps := s.sweeps ++ [.list] }
  | .sweep i => s.sweeps[i]?.bind (s.sweepStep i)
  | .startKill => some { s with kills := s.kills ++ [.get] }
  | .kill i => s.kills[i]?.bind (s.killStep i)

/-- The session after a list of actions. -/
def run (as : List Act) : Option Sess := Runs.run step s as

end Sess

end BuilderPro
