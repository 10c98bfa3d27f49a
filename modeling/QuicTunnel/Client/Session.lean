import QuicTunnel.Base.Transition
import QuicTunnel.Client.Pool

/-!
# Sessions of one connection

`connection_run` with its sessions (`tunnel-client/src/client.rs`): each attempt is a QUIC session
or, when QUIC does not take it, one H2 pool session; then the loop takes the rejection slot, charges
the result, reports it and waits.

The pools of earlier sessions stay in the state: their `JoinSet` is dropped, but a member in the
middle of its synchronous code runs on to its next await, and shares the slot and the event sink
with the sessions that follow.

A task that ends with an error is reported as `GaveUp` by the task that joins it; here the event
stands in the log where the task ends.
-/

namespace QuicTunnel.Session

/-- What a connection task is started with. -/
structure Config where
  tag : String
  serverAddr : String
  policy : ReconnectPolicy
  poolSize : ℕ
  forceH2 : Bool

/-- Two members over H2, with the default policy. -/
def twoMembers : Config := ⟨"SEC", "127.0.0.1:4433", .default, 2, true⟩

/-- Where the connection task is. -/
inductive Phase
  /-- At the head of the loop. -/
  | attempt
  /-- In `quic_loop`; `up` is `ctrl_completed`. -/
  | quic (up : Bool)
  /-- In the `select!` of `h2_pool`. -/
  | pool (pool : Pool)
  /-- A session has ended; before the slot is taken. -/
  | ended (outcome : SessionOutcome)
  /-- In `retry.wait`. -/
  | waiting (delay : Option Duration)
  /-- The task returned `Ok`. -/
  | returned
  /-- The task ended with an error. -/
  | gaveUp
  deriving DecidableEq

structure State where
  stopped : Bool
  retry : RetryState
  /-- The rejection slot. -/
  rejected : Option String
  /-- The pools of earlier sessions. -/
  old : List Pool
  phase : Phase
  /-- The events of this connection, in order. -/
  log : List ConnectionEvent
  deriving DecidableEq

/-- A task that has just been spawned. -/
def init (cfg : Config) : State := ⟨false, .new cfg.policy, none, [], .attempt, []⟩

/-- The branch of the `select!` that ends a pool session. -/
inductive Branch
  | stop
  | rejection
  | down
  | allParked
  | drained
  deriving DecidableEq

inductive Action
  | stop
  /-- The loop, or its wait, finds the tunnel stopped. -/
  | leave
  /-- QUIC does not take the attempt: forced off, no socket, or no connection. -/
  | fallback
  /-- The QUIC connection is there. -/
  | connected
  /-- Its control exchange is complete. -/
  | quicUp
  /-- `quic_loop` returns; `reject` is the reason of a rejecting close. -/
  | quicEnded (failure : AttemptFailure) (reject : Option String)
  /-- A member of the session's pool makes a step. -/
  | member (i : ℕ) (input : MemberInput)
  /-- A member of the pool of an earlier session makes a step. -/
  | straggler (k i : ℕ) (input : MemberInput)
  /-- The pool session ends. -/
  | exit (branch : Branch)
  /-- The loop takes the slot and charges the session. -/
  | charge (now : SystemTime)
  /-- The wait is over. -/
  | waited
  deriving DecidableEq

/-- What a pool that is drained or parked makes of its session. -/
def drained (p : Pool) : SessionOutcome × Pool :=
  if p.liveness.everUp then (.lost, p) else (.neverUp p.takeFailure.1, p.takeFailure.2)

/-- The outcome of a pool session by a branch that is ready, with the pool it leaves. -/
def poolOutcome (s : State) (p : Pool) : Branch → Option (SessionOutcome × Pool)
  | .stop => if s.stopped then some (.stopped, p) else none
  | .rejection =>
    if s.rejected.isSome then some (.neverUp p.takeFailure.1, p.takeFailure.2) else none
  | .down =>
    if p.liveness.wentDown then
      some (.lost, { p with liveness := { p.liveness with wentDown := false } })
    else none
  | .allParked =>
    if p.liveness.allParked then
      some (drained { p with liveness := { p.liveness with allParked := false } })
    else none
  | .drained => if p.members.all (fun m => m.pc = .ended) then some (drained p) else none

/-- The end of a pool session: the `JoinSet` is dropped. -/
def exitPool (s : State) (branch : Branch) : Option State :=
  match s.phase with
  | .pool p => (poolOutcome s p branch).map fun (outcome, p) =>
    { s with
      old := s.old ++ [{ p with aborted := true }]
      phase := if outcome = .stopped then .returned else .ended outcome }
  | _ => none

/-- `quic_session` after `quic_loop` has returned. -/
def endQuic (cfg : Config) (s : State) (failure : AttemptFailure) (reject : Option String) :
    Option State :=
  match s.phase with
  | .quic up =>
    let s := { s with rejected := reject.orElse fun _ => s.rejected }
    if s.stopped then some { s with phase := .returned }
    else if up then
      some { s with
        phase := .ended .lost
        log := s.log ++ [.lost cfg.tag cfg.serverAddr .quic failure.cause] }
    else some { s with phase := .ended (.neverUp failure) }
  | _ => none

/-- The loop after a session. -/
def chargeSession (cfg : Config) (s : State) (now : SystemTime) : Option State :=
  match s.phase with
  | .ended outcome =>
    let attempt := s.retry.nextAttempt
    match QuicTunnel.charge cfg.tag cfg.serverAddr s.retry outcome.failure s.rejected now with
    | .error e =>
      some { s with
        rejected := none, phase := .gaveUp, log := s.log ++ [.gaveUp cfg.tag cfg.serverAddr e] }
    | .ok (retry, cause, delay) =>
      let report := cause.map fun c => ConnectionEvent.attemptFailed cfg.tag cfg.serverAddr attempt
        c (delay.getD retry.backoff)
      some { s with
        rejected := none, retry := retry, phase := .waiting delay, log := s.log ++ report.toList }
  | _ => none

/-- What a member's step leaves in the slot and in the log. -/
def State.after (s : State) (r : MemberStep) : State :=
  { s with
    rejected := r.rejected.orElse fun _ => s.rejected
    log := s.log ++ r.event.toList }

/-- One step. -/
def step (cfg : Config) (s : State) : Action → Option State
  | .stop => some { s with stopped := true }
  | .leave =>
    match s.phase with
    | .attempt | .waiting _ => if s.stopped then some { s with phase := .returned } else none
    | _ => none
  | .fallback =>
    if s.phase = .attempt ∧ s.stopped = false then
      some { s with phase := .pool (.new cfg.tag cfg.serverAddr cfg.poolSize cfg.policy) }
    else none
  | .connected =>
    if s.phase = .attempt ∧ s.stopped = false ∧ cfg.forceH2 = false then
      some { s with phase := .quic false }
    else none
  | .quicUp =>
    if s.phase = .quic false then
      some { s with
        phase := .quic true, log := s.log ++ [.established cfg.tag cfg.serverAddr .quic] }
    else none
  | .quicEnded failure reject => endQuic cfg s failure reject
  | .member i input =>
    match s.phase with
    | .pool p => (p.step cfg.policy s.stopped i input).map fun r =>
      { s.after r with phase := .pool r.pool }
    | _ => none
  | .straggler k i input =>
    s.old[k]?.bind fun p => (p.step cfg.policy s.stopped i input).map fun r =>
      { s.after r with old := s.old.set k r.pool }
  | .exit branch => exitPool s branch
  | .charge now => chargeSession cfg s now
  | .waited =>
    match s.phase with
    | .waiting delay => some { s with retry := s.retry.waited delay, phase := .attempt }
    | _ => none

end QuicTunnel.Session
