import BuilderPro.Sessiond.OscParser
import BuilderPro.Sessiond.Scrollback

/-!
# One session's shared state

`pty_supervisor.rs`: what the reader, wait and ticker threads of a session and the daemon's requests
share, each field under its own lock, and the operations that take one lock.  The database's rows of
the session are those of `persistence.rs`.
-/

namespace BuilderPro

inductive SessionLifecycle
  | atPrompt
  | typing
  | running
  | exited (code : Option UInt8) (signal : Option String)
  deriving DecidableEq, Repr

/-- `advance_lifecycle`. -/
def advanceLifecycle (lifecycle : SessionLifecycle) : OscEvent → SessionLifecycle
  | .promptStart =>
    match lifecycle with
    | .exited _ _ => .atPrompt
    | l => l
  | .promptEnd => .atPrompt
  | .commandStart => .running
  | .commandEnd code => .exited code none
  | .cwd _ => lifecycle

structure SessionMeta where
  id : String
  workspaceId : String
  title : String
  shell : String
  cwd : String
  cols : UInt16
  rows : UInt16
  lifecycle : SessionLifecycle
  waitingForInput : Bool
  isActive : Bool
  createdAt : Int
  deriving DecidableEq, Repr

inductive CommandKind
  | started
  | finished
  deriving DecidableEq, Repr

structure CommandEvent where
  seq : ℕ
  ts : Int
  kind : CommandKind
  exitCode : Option UInt8
  deriving DecidableEq, Repr

/-! ## The child's end -/

/-- What `child.wait()` returns. -/
inductive ExitStatus
  | signaled (signal : String)
  | exited (code : UInt32)
  | waitFailed
  deriving DecidableEq, Repr

structure ExitRecord where
  code : Option UInt8
  signal : Option String
  deriving DecidableEq, Repr

def ExitStatus.record : ExitStatus → ExitRecord
  | .signaled signal => ⟨none, some signal⟩
  | .exited code => ⟨some (code &&& 0xff).toUInt8, none⟩
  | .waitFailed => ⟨none, none⟩

def ExitRecord.lifecycle (x : ExitRecord) : SessionLifecycle := .exited x.code x.signal

/-! ## The shared fields -/

/-- What the waiting-for-input heuristic reads of the terminal besides the lifecycle. -/
structure Signals where
  lineMode : Bool
  notAlt : Bool
  quiescent : Bool
  notCol0 : Bool
  deriving DecidableEq, Repr

def Signals.all (g : Signals) : Bool := g.lineMode && g.notAlt && g.quiescent && g.notCol0

structure Shared where
  id : String
  workspaceId : String
  title : String
  shell : String
  cwd : String
  cols : UInt16
  rows : UInt16
  lifecycle : SessionLifecycle
  isActive : Bool
  exitCode : Option UInt8
  exitSignal : Option String
  scrollback : ScrollbackRing
  waiting : Bool
  createdAt : Int
  pendingCommandEvents : List CommandEvent
  commandSeq : ℕ

namespace Shared

variable (sh : Shared)

/-- `is_active` is the last field `meta` reads; `SessionMeta.withActive` is that read. -/
def getMeta : SessionMeta where
  id := sh.id
  workspaceId := sh.workspaceId
  title := sh.title
  shell := sh.shell
  cwd := sh.cwd
  cols := sh.cols
  rows := sh.rows
  lifecycle := sh.lifecycle
  waitingForInput := sh.waiting
  isActive := sh.isActive
  createdAt := sh.createdAt

def advance (ev : OscEvent) : Shared := { sh with lifecycle := advanceLifecycle sh.lifecycle ev }

/-- `push_command_event`, at the clock's `now`. -/
def pushCommandEvent (kind : CommandKind) (exitCode : Option UInt8) (now : Int) : Shared :=
  { sh with
    commandSeq := sh.commandSeq + 1
    pendingCommandEvents := sh.pendingCommandEvents ++ [⟨sh.commandSeq, now, kind, exitCode⟩] }

/-- What the reader does for an event once the lifecycle has advanced. -/
def record (ev : OscEvent) (now : Int) : Shared :=
  match ev with
  | .cwd path => { sh with cwd := path }
  | .commandStart => sh.pushCommandEvent .started none now
  | .commandEnd code => sh.pushCommandEvent .finished code now
  | _ => sh

/-- The command event that `record` pushes. -/
def commandEvent (ev : OscEvent) (now : Int) : Option CommandEvent :=
  match ev with
  | .commandStart => some ⟨sh.commandSeq, now, .started, none⟩
  | .commandEnd code => some ⟨sh.commandSeq, now, .finished, code⟩
  | _ => none

def pushScrollback (chunk : List UInt8) : Shared :=
  { sh with scrollback := sh.scrollback.push chunk }

/-- `recompute_waiting` after it has read whether a command runs. -/
def storeWaiting (running : Bool) (g : Signals) : Shared :=
  { sh with waiting := running && g.all }

def setInactive : Shared := { sh with isActive := false }

def drainCommandEvents : List CommandEvent × Shared :=
  (sh.pendingCommandEvents, { sh with pendingCommandEvents := [] })

end Shared

def scrollbackCap : ℕ := 256 * 1024

/-- The shared fields as `create` makes them. -/
def freshShared (id workspaceId title shell cwd : String) (cols rows : UInt16) (createdAt : Int) :
    Shared where
  id := id
  workspaceId := workspaceId
  title := title
  shell := shell
  cwd := cwd
  cols := cols
  rows := rows
  lifecycle := .atPrompt
  isActive := true
  exitCode := none
  exitSignal := none
  scrollback := ScrollbackRing.new scrollbackCap
  waiting := false
  createdAt := createdAt
  pendingCommandEvents := []
  commandSeq := 0

def SessionMeta.withActive (m : SessionMeta) (isActive : Bool) : SessionMeta :=
  { m with isActive := isActive }

/-! ## The session's rows -/

/-- The `session` row; the table has no column for `is_active` or `waiting_for_input`. -/
structure SessionRow where
  id : String
  workspaceId : String
  title : String
  shell : String
  cwd : String
  cols : UInt16
  rows : UInt16
  lifecycle : SessionLifecycle
  createdAt : Int
  deriving DecidableEq, Repr

def SessionMeta.row (m : SessionMeta) : SessionRow where
  id := m.id
  workspaceId := m.workspaceId
  title := m.title
  shell := m.shell
  cwd := m.cwd
  cols := m.cols
  rows := m.rows
  lifecycle := m.lifecycle
  createdAt := m.createdAt

/-- The rows the database keeps of one session; its scrollback is the one row with `seq` 0. -/
structure SessionRows where
  session : Option SessionRow
  scrollback : Option (List UInt8)
  commandEvents : List CommandEvent
  deriving DecidableEq, Repr

namespace SessionRows

def empty : SessionRows := ⟨none, none, []⟩

variable (db : SessionRows)

def upsertSession (m : SessionMeta) : SessionRows := { db with session := some m.row }

def appendScrollback (bytes : List UInt8) : SessionRows := { db with scrollback := some bytes }

/-- `ON CONFLICT(session_id, seq) DO UPDATE`. -/
def appendCommandEvent (ev : CommandEvent) : SessionRows :=
  { db with commandEvents :=
      if db.commandEvents.any (·.seq == ev.seq) then
        db.commandEvents.map fun e => if e.seq == ev.seq then ev else e
      else db.commandEvents ++ [ev] }

def appendCommandEvents (evs : List CommandEvent) : SessionRows :=
  evs.foldl appendCommandEvent db

/-- Events with new sequence numbers are added as they are. -/
theorem appendCommandEvents_fresh {evs : List CommandEvent} {db : SessionRows}
    (hnew : ∀ e ∈ evs, ∀ r ∈ db.commandEvents, r.seq ≠ e.seq) (hnd : (evs.map (·.seq)).Nodup) :
    db.appendCommandEvents evs = { db with commandEvents := db.commandEvents ++ evs } := by
  induction evs generalizing db with
  | nil => simp [appendCommandEvents]
  | cons e evs ih =>
    have he : db.appendCommandEvent e = { db with commandEvents := db.commandEvents ++ [e] } := by
      have : db.commandEvents.any (·.seq == e.seq) = false := by
        simpa using hnew e List.mem_cons_self
      simp [appendCommandEvent, this]
    rw [List.map_cons, List.nodup_cons] at hnd
    rw [appendCommandEvents, List.foldl_cons, he, ← appendCommandEvents, ih ?_ hnd.2]
    · simp
    · intro f hf r hr
      rcases List.mem_append.1 hr with hr | hr
      · exact hnew f (List.mem_cons_of_mem _ hf) r hr
      · obtain rfl := List.mem_singleton.1 hr
        exact fun h => hnd.1 (List.mem_map.2 ⟨f, hf, h.symm⟩)

end SessionRows

end BuilderPro
