import BuilderPro.App.StdinChunks

/-!
# Writes to sessions

`write_stdin` sends its chunks one after another under the session's lock, which it looks up in a map
that the exit of the session's child evicts.  A step is in turn if no write looks up a lock anew
while another of the session is under way with the evicted one, and no request overtakes one of an
earlier connection (`WriteSys.InTurn`).
-/

namespace BuilderPro

/-- Where a call is: it holds its session's lock from `holding` on, and waits for the answer to a
chunk when it has `sent` it, which the daemon may have accepted or rejected. -/
inductive WritePc
  | start
  | waiting
  | holding
  | sent (processed : Option Bool)
  | done (ok : Bool)
  deriving DecidableEq

/-- A `write_stdin` call; `next` counts the chunks that have been acknowledged. -/
structure WriteCall where
  session : String
  data : List UInt8
  lock : ℕ
  next : ℕ
  pc : WritePc
  deriving DecidableEq

namespace WriteCall

variable (c : WriteCall)

def chunks : List (List UInt8) := buildWriteStdinChunks c.data

/-- Whether the call has looked its lock up and is not over. -/
def underWay : Bool :=
  match c.pc with
  | .start => false
  | .done _ => false
  | _ => true

def holds : Bool :=
  match c.pc with
  | .holding => true
  | .sent _ => true
  | _ => false

end WriteCall

/-- A request that the daemon has not processed: the connection it goes out on, its call, and which
chunk it carries. -/
structure WireEntry where
  conn : ℕ
  call : ℕ
  chunk : ℕ
  deriving DecidableEq

/-- The locks, by session and number, who holds them, how many each session has had, the calls, the
requests of each session on their way, and those the daemon has accepted. -/
structure WriteSys where
  locks : String → Option ℕ
  holder : String → ℕ → Option ℕ
  created : String → ℕ
  calls : List WriteCall
  wire : String → List WireEntry
  accepted : String → List (ℕ × ℕ)

inductive WriteAct
  | invoke (session : String) (data : List UInt8)
  | lockFor (i : ℕ)
  | acquire (i : ℕ)
  | send (i conn : ℕ)
  | process (session : String) (k : ℕ) (ok : Bool)
  | lose (session : String) (k : ℕ)
  | ack (i : ℕ)
  | fail (i : ℕ) (daemonError : Bool)
  | finish (i : ℕ)
  | evict (session : String)
  deriving DecidableEq

namespace WriteSys

variable (s : WriteSys)

def setCall (i : ℕ) (c : WriteCall) : WriteSys := { s with calls := s.calls.set i c }

def lockFor (i : ℕ) (c : WriteCall) : Option WriteSys :=
  if c.pc = .start then
    match s.locks c.session with
    | some l => some (s.setCall i { c with lock := l, pc := .waiting })
    | none =>
      let l := s.created c.session
      some { s.setCall i { c with lock := l, pc := .waiting } with
        locks := Function.update s.locks c.session (some l)
        created := Function.update s.created c.session (l + 1) }
  else none

def setHolder (session : String) (l : ℕ) (o : Option ℕ) : String → ℕ → Option ℕ :=
  Function.update s.holder session (Function.update (s.holder session) l o)

def acquire (i : ℕ) (c : WriteCall) : Option WriteSys :=
  if c.pc = .waiting ∧ s.holder c.session c.lock = none then
    some { s.setCall i { c with pc := .holding } with
      holder := s.setHolder c.session c.lock (some i) }
  else none

/-- The next chunk goes out, on a connection that is no earlier than that of any request of the
session before it. -/
def send (i : ℕ) (c : WriteCall) (conn : ℕ) : Option WriteSys :=
  if c.pc = .holding ∧ c.next < c.chunks.length ∧ ∀ e ∈ s.wire c.session, e.conn ≤ conn then
    some { s.setCall i { c with pc := .sent none } with
      wire := Function.update s.wire c.session (s.wire c.session ++ [⟨conn, i, c.next⟩]) }
  else none

def takeOff (session : String) (k : ℕ) : WriteSys :=
  { s with wire := Function.update s.wire session ((s.wire session).eraseIdx k) }

/-- A call that waits for the answer to the chunk is to be told of it. -/
def notify (e : WireEntry) (ok : Bool) : List WriteCall :=
  s.calls.modify e.call fun c =>
    if c.pc = .sent none ∧ c.next = e.chunk then { c with pc := .sent (some ok) } else c

/-- The daemon processes a request; those of one connection it processes in their order. -/
def process (session : String) (k : ℕ) (ok : Bool) : Option WriteSys :=
  match (s.wire session)[k]? with
  | none => none
  | some e =>
    if ∀ e' ∈ (s.wire session).take k, e'.conn ≠ e.conn then
      some { s.takeOff session k with
        calls := s.notify e ok
        accepted := if ok then
            Function.update s.accepted session (s.accepted session ++ [(e.call, e.chunk)])
          else s.accepted }
    else none

/-- The guard is dropped, and the call returns. -/
def release (i : ℕ) (c : WriteCall) (ok : Bool) : WriteSys :=
  { s.setCall i { c with pc := .done ok } with holder := s.setHolder c.session c.lock none }

def step (s : WriteSys) : WriteAct → Option WriteSys
  | .invoke session data =>
    some { s with calls := s.calls ++ [⟨session, data, 0, 0, .start⟩] }
  | .lockFor i => s.calls[i]?.bind (s.lockFor i)
  | .acquire i => s.calls[i]?.bind (s.acquire i)
  | .send i conn => s.calls[i]?.bind (s.send i · conn)
  | .process session k ok => s.process session k ok
  -- a connection is lost with a request on it, or the request never gets on one
  | .lose session k =>
    if k < (s.wire session).length then some (s.takeOff session k) else none
  | .ack i => s.calls[i]?.bind fun c =>
    if c.pc = .sent (some true) then
      some (s.setCall i { c with pc := .holding, next := c.next + 1 })
    else none
  | .fail i daemonError => s.calls[i]?.bind fun c =>
    match c.pc with
    | .sent processed =>
      if daemonError = true → processed = some false then some (s.release i c false) else none
    | _ => none
  | .finish i => s.calls[i]?.bind fun c =>
    if c.pc = .holding ∧ c.next = c.chunks.length then some (s.release i c true) else none
  | .evict session => some { s with locks := Function.update s.locks session none }

def init : WriteSys := ⟨fun _ => none, fun _ _ => none, fun _ => 0, [], fun _ => [], fun _ => []⟩

/-- A chunk of a call's data. -/
def payload (i k : ℕ) : List UInt8 :=
  ((s.calls[i]?.map fun c => c.chunks[k]?.getD []).getD [])

/-- What the daemon has accepted for a session. -/
def acceptedBytes (session : String) : List UInt8 :=
  (s.accepted session).flatMap fun p => s.payload p.1 p.2

/-- The writes of every session are whole: what the daemon has accepted is what its calls give one
after another, in some order, each successful one its data and each other one the beginning of its
data; the chunks of a call give its data and fit a frame; and a call is kept from its lock by a
call of its session alone. -/
structure NotInterleaved : Prop where
  accepted : ∀ session, ∃ (order : List ℕ) (part : ℕ → List UInt8), order.Nodup
    ∧ (∀ i ∈ order, ∃ c ∈ s.calls[i]?, c.session = session ∧ part i <+: c.data)
    ∧ (∀ (i : ℕ), ∀ c ∈ s.calls[i]?, c.session = session → c.pc = .done true →
      i ∈ order ∧ part i = c.data)
    ∧ s.acceptedBytes session = order.flatMap part
  chunks : ∀ c ∈ s.calls, c.chunks.flatten = c.data
  frames : ∀ c ∈ s.calls, ∀ chunk ∈ c.chunks, ∀ id fromReader, ∃ frame,
    encodeCborFrame (writeStdinCodec fromReader) ⟨id, c.session, chunk⟩ = .ok frame
      ∧ frame.length ≤ 4 + maxFrameLen
  waits : ∀ (i : ℕ), ∀ c ∈ s.calls[i]?, c.pc = .waiting → (s.step (.acquire i)).isNone →
    ∃ j, ∃ d ∈ s.calls[j]?, s.holder c.session c.lock = some j ∧ d.session = c.session

/-- Whether a call's session id fits a frame, it finds the session's lock in the map if another call
of the session is under way, and the daemon accepts no request of a session ahead of one that was
sent before. -/
def InTurn : WriteAct → Prop
  | .invoke session _ => session.utf8ByteSize ≤ sessionIdMax
  | .lockFor i => ∀ c ∈ s.calls[i]?, s.locks c.session = none →
    ∀ d ∈ s.calls, d.session = c.session → d.underWay = false
  | .process _ k ok => ok = true → k = 0
  | _ => True

instance (a : WriteAct) : Decidable (s.InTurn a) := by
  unfold InTurn
  split <;> infer_instance

/-- The requests of a session that have been sent and not refused or lost: those the daemon has
accepted, and those on their way. -/
def line (session : String) : List (ℕ × ℕ) :=
  s.accepted session ++ (s.wire session).map fun e => (e.call, e.chunk)

/-- What has become of a call's chunks, and where the line ends while it holds the lock. -/
structure CallInv (i : ℕ) (c : WriteCall) : Prop where
  short : c.session.utf8ByteSize ≤ sessionIdMax
  created : c.pc ≠ .start → c.lock < s.created c.session
  holder : c.holds = true → s.holder c.session c.lock = some i
  entries : ∀ session k, (i, k) ∈ s.line session →
    session = c.session ∧ k ≤ c.next ∧ k < c.chunks.length
  below : ∀ k < c.next, (i, k) ∈ s.accepted c.session
  fresh : c.pc = .start ∨ c.pc = .waiting → c.next = 0
  unsent : c.pc ≠ .done false → (∀ p, c.pc ≠ .sent p) → (i, c.next) ∉ s.line c.session
  accepted : c.pc = .sent (some true) → (i, c.next) ∈ s.accepted c.session
  refused : c.pc = .sent (some false) → (i, c.next) ∉ s.line c.session
  finished : c.pc = .done true → c.next = c.chunks.length
  last : c.holds = true → (i, c.next) ∈ s.line c.session →
    (s.line c.session).getLast? = some (i, c.next)
  last_acked : c.holds = true → (i, c.next) ∉ s.line c.session → ∀ j, c.next = j + 1 →
    (s.line c.session).getLast? = some (i, j)

structure WriteInv : Prop where
  calls : ∀ (i : ℕ), ∀ c ∈ s.calls[i]?, s.CallInv i c
  exists_call : ∀ session i k, (i, k) ∈ s.line session → ∃ c, s.calls[i]? = some c
  blocks : ∀ session, Blocks (s.line session)
  chunk : ∀ session, ∀ e ∈ s.wire session, ∀ c ∈ s.calls[e.call]?, e.chunk = c.next
  holder : ∀ session l i, s.holder session l = some i →
    ∃ c ∈ s.calls[i]?, c.session = session ∧ c.lock = l ∧ c.holds = true
  lock : ∀ (i j : ℕ), ∀ c ∈ s.calls[i]?, ∀ d ∈ s.calls[j]?, c.underWay = true →
    d.underWay = true → c.session = d.session → c.lock = d.lock
  map : ∀ session l, s.locks session = some l → l < s.created session
    ∧ ∀ c ∈ s.calls, c.session = session → c.underWay = true → c.lock = l

end WriteSys

end BuilderPro
