import QuicTunnel.Base.Transition
import QuicTunnel.Client.Retry

/-!
# The foreign event stream

`tunnel-client-ffi/src/ffi/mod.rs`: the events the foreign side observes, their delivery
(`deliver`, `drain`, `deliver_terminal`), `TunnelClient::run`, and the `TerminalGuard` whose drop
hands the tail of the stream to a detached task.

`run()` is an async function, so it stops only at its await points: in the `select!`, and inside
`handler.on_event`.  `Pc` lists them, with those of the tail the guard spawns.  A step goes from
one await point to the next; everything between two awaits is synchronous.  An `on_event` call
counts once it has returned (`complete`): a future dropped inside it (`cancel`) leaves no trace in
`log`.
-/

namespace QuicTunnel.Ffi

/-! ### Events -/

/-- What the foreign side observes. -/
inductive TunnelEvent
  | started
  | stopped
  | certIssued (pem : String)
  | connectionEstablished (tag serverAddr transport : String)
  | connectionLost (tag serverAddr transport cause : String)
  | connectionAttemptFailed (tag serverAddr : String) (attempt : UInt32) (cause : String)
      (retryInMs : UInt64)
  | connectionGaveUp (tag serverAddr cause : String)
  | failed (cause : String)
  deriving DecidableEq

namespace TunnelEvent

/-- `Stopped` or `Failed`. -/
def isTerminal : TunnelEvent → Bool
  | .stopped => true
  | .failed _ => true
  | _ => false

/-- `ConnectionEstablished`. -/
def isEstablished : TunnelEvent → Bool
  | .connectionEstablished .. => true
  | _ => false

/-- An event that stands for something the tunnel enqueued. -/
def isItem : TunnelEvent → Bool
  | .started => false
  | e => !e.isTerminal

/-- `From<tc::ConnectionEvent>`; a wait beyond `u64` milliseconds is reported as `u64::MAX`. -/
def ofConnectionEvent : ConnectionEvent → TunnelEvent
  | .established tag addr transport => .connectionEstablished tag addr transport.asStr
  | .lost tag addr transport cause => .connectionLost tag addr transport.asStr cause
  | .attemptFailed tag addr attempt cause retryIn =>
    .connectionAttemptFailed tag addr attempt cause
      (UInt64.ofNat (min retryIn.asMillis (2 ^ 64 - 1)))
  | .gaveUp tag addr cause => .connectionGaveUp tag addr cause

end TunnelEvent

/-- Everything `run()` delivers, in one queue. -/
inductive Inner
  | cert (pem : String)
  | conn (ev : ConnectionEvent)
  deriving DecidableEq

namespace Inner

/-- The event an item is delivered as. -/
def toEvent : Inner → TunnelEvent
  | .cert pem => .certIssued pem
  | .conn ev => .ofConnectionEvent ev

/-- Whether the item is an `Established`, before the first of which `Started` is emitted. -/
def isEstablished : Inner → Bool
  | .conn (.established ..) => true
  | _ => false

@[simp] theorem toEvent_isEstablished (x : Inner) : x.toEvent.isEstablished = x.isEstablished := by
  rcases x with pem | ev
  · rfl
  · cases ev <;> rfl

@[simp] theorem toEvent_isItem (x : Inner) : x.toEvent.isItem = true := by
  rcases x with pem | ev
  · rfl
  · cases ev <;> rfl

@[simp] theorem toEvent_isTerminal (x : Inner) : x.toEvent.isTerminal = false := by
  rcases x with pem | ev
  · rfl
  · cases ev <;> rfl

theorem toEvent_ne_started (x : Inner) : x.toEvent ≠ .started := by
  rcases x with pem | ev
  · simp [toEvent]
  · cases ev <;> simp [toEvent, TunnelEvent.ofConnectionEvent]

end Inner

/-! ### Where the stream is -/

/-- How the tunnel task ended: its result, or a panic. -/
inductive Outcome
  | ok
  | error (chain : String)
  | panicked (text : String)
  deriving DecidableEq

/-- The terminal event of an outcome. -/
def Outcome.event : Outcome → TunnelEvent
  | .ok => .stopped
  | .error chain => .failed chain
  | .panicked text => .failed text

/-- The loop a delivery belongs to: the `select!` loop, the drain after the join, or the drain of
the detached tail. -/
inductive Site
  | select
  | joined (outcome : Outcome)
  | tail
  deriving DecidableEq

/-- The await points of `run()` and of the tail. -/
inductive Pc
  /-- `run()` has not been polled. -/
  | idle
  /-- In the `select!`. -/
  | select
  /-- Inside `on_event(Started)` of the `deliver` of an item. -/
  | starting (site : Site) (item : Inner)
  /-- Inside `on_event` of the `deliver` of an item. -/
  | delivering (site : Site) (item : Inner)
  /-- Inside `on_event` of `deliver_terminal`. -/
  | ending (event : TunnelEvent)
  /-- `run()` has returned. -/
  | returned
  /-- The tail waits in `tunnel.shutdown()`. -/
  | shutdown
  /-- The tail is inside `on_event(Stopped)`. -/
  | tailEnding
  /-- The tail has finished. -/
  | tailDone
  /-- `spawn_detached` found nothing to run the tail on. -/
  | abandoned
  deriving DecidableEq

/-- The tunnel task of the guard's `JoinSet`. -/
inductive Task
  | none
  | running
  | ended (outcome : Outcome)
  | joined
  deriving DecidableEq

/-- The set after `join_next` or `shutdown` has emptied it. -/
def Task.reaped : Task → Task
  | .none => .none
  | _ => .joined

/-- The client and its stream. -/
structure State where
  started : Bool
  stopped : Bool
  announced : Bool
  terminal : Bool
  /-- Whether the receiver is still held, by the guard or by the tail. -/
  receiver : Bool
  /-- Whether a sender is left. -/
  senders : Bool
  /-- What the channel holds. -/
  queue : List Inner
  tunnel : Task
  pc : Pc
  /-- The completed `on_event` calls, in order. -/
  log : List TunnelEvent
  /-- Everything the channel ever accepted, in order. -/
  enqueued : List Inner
  /-- What it had accepted when the tunnel task ended. -/
  beforeEnd : List Inner
  deriving DecidableEq

/-- A client that has just been built. -/
def init : State where
  started := false
  stopped := false
  announced := false
  terminal := false
  receiver := true
  senders := true
  queue := []
  tunnel := .none
  pc := .idle
  log := []
  enqueued := []
  beforeEnd := []

/-! ### Delivery -/

/-- `deliver` up to its first await. -/
def deliver (s : State) (site : Site) (item : Inner) : State :=
  if item.isEstablished && !s.announced then { s with pc := .starting site item }
  else { s with pc := .delivering site item }

/-- `drain` up to its first await; `next` is the await point behind it. -/
def drain (s : State) (site : Site) (next : Pc) : State :=
  match s.receiver, s.queue with
  | true, item :: rest => deliver { s with queue := rest } site item
  | _, _ => { s with pc := next }

/-- The next turn of a loop: the `select!` loop awaits, a drain takes its next item or ends. -/
def resume (s : State) : Site → State
  | .select => { s with pc := .select }
  | .joined outcome => drain s (.joined outcome) (.ending outcome.event)
  | .tail => drain s .tail .tailEnding

/-! ### Steps -/

/-- What can happen. -/
inductive Action
  /-- A first poll of `run()`, or a second call; `runtime` is the answer of `tunnel_runtime`. -/
  | run (runtime : Except String Unit)
  | stop
  /-- The tunnel enqueues a certificate or a connection event. -/
  | emit (item : Inner)
  /-- The last sender goes away. -/
  | dropSenders
  | tunnelEnds (outcome : Outcome)
  /-- The `select!` takes an item. -/
  | recv
  /-- The `select!` learns that every sender is gone. -/
  | recvClosed
  /-- The `select!` finds the tunnel task ended. -/
  | join
  /-- The `on_event` call in progress returns. -/
  | complete
  /-- The future of `run()` is dropped; `spawned` is whether `spawn_detached` succeeds. -/
  | cancel (spawned : Bool)
  /-- `tunnel.shutdown()` of the tail returns. -/
  | shutdown

/-- `TunnelClient::run` up to its first await.  A second call is refused and changes nothing. -/
def callRun (s : State) (runtime : Except String Unit) : State :=
  if s.started then s
  else
    let s := { s with started := true }
    if s.stopped then { s with pc := .ending .stopped }
    else
      match runtime with
      | .error cause => { s with pc := .ending (.failed cause) }
      | .ok () => { s with tunnel := .running, pc := .select }

/-- The await points of a `run()` that holds a guard: it has been polled and has not returned. -/
def Pc.guarded : Pc → Bool
  | .select | .ending _ => true
  | .starting site _ | .delivering site _ => site != .tail
  | _ => false

/-- Dropping the future: the guard's drop hands the rest of the stream to the tail. -/
def cancelled (s : State) (spawned : Bool) : Option State :=
  if s.pc.guarded then some { s with pc := if spawned then .shutdown else .abandoned } else none

/-- The `on_event` call in progress returns, and the code runs on to its next await. -/
def completed (s : State) : Option State :=
  match s.pc with
  | .starting site item =>
    some { s with log := s.log ++ [.started], announced := true, pc := .delivering site item }
  | .delivering site item => some (resume { s with log := s.log ++ [item.toEvent] } site)
  | .ending event =>
    some { s with log := s.log ++ [event], terminal := true, receiver := false, pc := .returned }
  | .tailEnding =>
    some { s with log := s.log ++ [.stopped], terminal := true, receiver := false, pc := .tailDone }
  | _ => none

/-- One step. -/
def step (s : State) : Action → Option State
  | .run runtime => some (callRun s runtime)
  | .stop => some { s with stopped := true }
  | .emit item =>
    if s.tunnel = .none ∨ s.senders = false then none
    else if s.receiver then
      some { s with queue := s.queue ++ [item], enqueued := s.enqueued ++ [item] }
    else some s
  | .dropSenders => some { s with senders := false }
  | .tunnelEnds outcome =>
    if s.tunnel = .running then
      some { s with tunnel := .ended outcome, beforeEnd := s.enqueued }
    else none
  | .recv =>
    match s.pc, s.receiver, s.queue with
    | .select, true, item :: rest => some (deliver { s with queue := rest } .select item)
    | _, _, _ => none
  | .recvClosed =>
    match s.pc, s.receiver, s.queue with
    | .select, true, [] => if s.senders then none else some { s with receiver := false }
    | _, _, _ => none
  | .join =>
    match s.pc, s.tunnel with
    | .select, .ended outcome =>
      -- `biased` polls the queue first, but the tunnel runs on other threads: what it enqueues
      -- between that poll and the join is left to the drain
      some (resume { s with tunnel := s.tunnel.reaped } (.joined outcome))
    | _, _ => none
  | .complete => completed s
  | .cancel spawned => cancelled s spawned
  | .shutdown =>
    match s.pc with
    | .shutdown => some (resume { s with tunnel := s.tunnel.reaped } .tail)
    | _ => none

/-- `run()` has returned, or the tail that replaced it has finished. -/
def State.finished (s : State) : Prop := s.pc = .returned ∨ s.pc = .tailDone

end QuicTunnel.Ffi
