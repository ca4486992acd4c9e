import BuilderPro.Lib.Runs
import BuilderPro.Lib.Slots
import Mathlib.Data.List.Nodup

/-!
# The daemon client's requests

A request is checked against the liveness flag, waits for room in the command queue, is received by
the connection's task, and waits in its map of pending replies.  Losing the connection drains the
map but not the queue.
-/

namespace BuilderPro

def cmdChannelCap : ℕ := 256

/-- What the caller of a request is told: the response to an id on a connection, by whatever outcome
it carries, that the request is too large, or `Disconnected`, with the connection there is then. -/
inductive Told
  | response (conn id : ℕ)
  | requestTooLarge
  | disconnected (conn : ℕ)
  deriving DecidableEq

/-- A caller in `request_inner`: past the liveness check, past the enqueue, or back. -/
inductive CallerPc
  | checked
  | waiting
  | done
  deriving DecidableEq

/-- A request.  The connection it was accepted on, and the connections and ids it has been sent
under, are followed beside. -/
structure ClientCall where
  pc : CallerPc
  told : List Told
  accepted : ℕ
  sent : List (ℕ × ℕ)
  deriving DecidableEq

/-- The reply channel of a caller is used; one that no longer waits has dropped it. -/
def ClientCall.answer (o : Told) (c : ClientCall) : ClientCall :=
  if c.pc = .waiting then { c with pc := .done, told := c.told ++ [o] } else c

/-- Where `connection_task` is; `dropped` tells how `run_connection` has ended. -/
inductive TaskPc
  | serving
  | lost (dropped : Bool)
  | cleared (dropped : Bool)
  | reconnecting
  | over
  deriving DecidableEq

/-- The client, its task and the requests there have been; `conn` counts the connections. -/
structure DaemonClient where
  live : Bool
  conn : ℕ
  task : TaskPc
  closed : Bool
  queue : List ℕ
  pending : List (ℕ × ℕ)
  nextId : ℕ
  calls : List ClientCall
  deriving DecidableEq

inductive ClientStep
  | request
  | enqueue (i : ℕ)
  | timeout (i : ℕ)
  | close
  | receive (encodes written : Bool)
  | receiveNone
  | response (id : ℕ)
  | lose
  | clear
  | drain
  | reconnect
  | incompatible
  deriving DecidableEq

namespace DaemonClient

variable (s : DaemonClient)

/-- The replies to some requests are sent. -/
def answerAll (p : ℕ → Bool) (o : Told) : List ClientCall :=
  s.calls.mapIdx fun i c => if p i then c.answer o else c

/-- The liveness check. -/
def request : Option DaemonClient :=
  if s.closed then none
  else if s.live then some { s with calls := s.calls ++ [⟨.checked, [], s.conn, []⟩] }
  else some { s with calls := s.calls ++ [⟨.done, [.disconnected s.conn], s.conn, []⟩] }

/-- `cmd_tx.send`: it waits for room, and fails once the task has returned. -/
def enqueue (i : ℕ) (c : ClientCall) : Option DaemonClient :=
  if c.pc = .checked then
    if s.task = .over then
      some { s with calls := s.calls.set i { c with pc := .done, told := [.disconnected s.conn] } }
    else if s.queue.length < cmdChannelCap then
      some { s with queue := s.queue ++ [i], calls := s.calls.set i { c with pc := .waiting } }
    else none
  else none

def timeout (i : ℕ) (c : ClientCall) : Option DaemonClient :=
  if c.pc = .waiting then
    some { s with calls := s.answerAll (· = i) (.disconnected s.conn) }
  else none

/-- A command is received: it fails alone if it cannot be encoded, else it is pending and written,
and a failed write ends the connection. -/
def receive (encodes written : Bool) : Option DaemonClient :=
  match s.task, s.queue with
  | .serving, i :: queue =>
    if encodes then
      some { s with
        queue := queue
        nextId := s.nextId + 1
        pending := (s.nextId, i) :: s.pending
        calls := s.calls.modify i fun c => { c with sent := c.sent ++ [(s.conn, s.nextId)] }
        task := if written then .serving else .lost false }
    else
      some { s with
        queue := queue
        nextId := s.nextId + 1
        calls := s.answerAll (· = i) .requestTooLarge }
  | _, _ => none

/-- A response frame; its id may be unknown. -/
def response (id : ℕ) : Option DaemonClient :=
  if s.task = .serving then
    match s.pending.lookup id with
    | some i => some { s with
        pending := s.pending.filter fun p => p.1 ≠ id
        calls := s.answerAll (· = i) (.response s.conn id) }
    | none => some s
  else none

/-- The client is dropped, when no caller is left in it. -/
def close : Option DaemonClient :=
  if s.calls.all fun c => c.pc = .done then some { s with closed := true } else none

def step (s : DaemonClient) : ClientStep → Option DaemonClient
  | .request => s.request
  | .enqueue i => s.calls[i]?.bind (s.enqueue i)
  | .timeout i => s.calls[i]?.bind (s.timeout i)
  | .close => s.close
  | .receive encodes written => s.receive encodes written
  | .receiveNone =>
    if s.task = .serving ∧ s.closed ∧ s.queue = [] then some { s with task := .lost true } else none
  | .response id => s.response id
  | .lose => if s.task = .serving then some { s with task := .lost false } else none
  | .clear =>
    match s.task with
    | .lost dropped => some { s with live := false, task := .cleared dropped }
    | _ => none
  | .drain =>
    match s.task with
    | .cleared dropped => some { s with
        pending := []
        calls := s.answerAll (fun i => i ∈ s.pending.map Prod.snd) (.disconnected s.conn)
        task := if dropped then .over else .reconnecting }
    | _ => none
  | .reconnect =>
    if s.task = .reconnecting then
      some { s with live := true, conn := s.conn + 1, task := .serving }
    else none
  -- the task returns, and the commands on its queue are dropped with their reply channels
  | .incompatible =>
    if s.task = .reconnecting then
      some { s with
        task := .over
        queue := []
        calls := s.answerAll (fun i => i ∈ s.queue) (.disconnected s.conn) }
    else none

/-- `finish_connect`: the handshake of the first connection has succeeded. -/
def finishConnect : DaemonClient := ⟨true, 0, .serving, false, [], [], 1, []⟩

/-- Whether no request has been answered twice or sent twice and each can still be answered, one
answered with a response got the response to the id it alone was sent under on the same connection,
and none has been sent on a connection later than the one it was accepted on or one on which its
caller was told `Disconnected`. -/
structure NoStaleRequest : Prop where
  told : ∀ c ∈ s.calls, c.told.length ≤ 1
  resolves : ∀ i < s.calls.length, ∃ as t, Runs.run step s as = some t
    ∧ ∃ c ∈ t.calls[i]?, c.told.length = 1
  sent : ∀ c ∈ s.calls, c.sent.length ≤ 1
  response : ∀ c ∈ s.calls, ∀ k id, .response k id ∈ c.told → (k, id) ∈ c.sent
  ids : ∀ (i j : ℕ), ∀ c ∈ s.calls[i]?, ∀ d ∈ s.calls[j]?, ∀ k k' id, (k, id) ∈ c.sent →
    (k', id) ∈ d.sent → i = j
  accepted : ∀ c ∈ s.calls, ∀ k id, (k, id) ∈ c.sent → k ≤ c.accepted
  disconnected : ∀ c ∈ s.calls, ∀ j k id, .disconnected j ∈ c.told → (k, id) ∈ c.sent → k ≤ j

/-- Whether a reconnect finds no command on the queue, and no caller between its liveness check and
the enqueue. -/
def Drained : ClientStep → Prop
  | .reconnect => s.queue = [] ∧ ∀ c ∈ s.calls, c.pc ≠ .checked
  | _ => True

instance (a : ClientStep) : Decidable (s.Drained a) := by
  unfold Drained
  split <;> infer_instance

end DaemonClient

end BuilderPro
