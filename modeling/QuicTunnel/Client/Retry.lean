import QuicTunnel.Common.Time

/-!
# The reconnect loop of one connection

`tunnel-client/src/client.rs`: the retry policy, the events a connection reports, the bookkeeping
of attempts and backoff (`RetryState`), and the loop of `connection_run` that charges every
finished session against the budget.

The loop is given here the results of its sessions (`SessionResult`): how the session ended, what
the reject slot held when the loop took it, and the wall clock it read.  `connectionRun` lists
what the loop does after each of them (`Turn`); nothing follows the turn that ends the task.
-/

namespace QuicTunnel

/-- `u32::saturating_add`. -/
def saturatingAdd (a b : UInt32) : UInt32 :=
  if a.toNat + b.toNat < 2 ^ 32 then a + b else UInt32.ofNat (2 ^ 32 - 1)

theorem saturatingAdd_toNat (a b : UInt32) :
    (saturatingAdd a b).toNat = min (a.toNat + b.toNat) (2 ^ 32 - 1) := by
  unfold saturatingAdd
  split_ifs with h
  · rw [UInt32.toNat_add, Nat.mod_eq_of_lt h]
    omega
  · rw [UInt32.toNat_ofNat_of_lt' (by decide)]
    omega

/-! ### Policy -/

/-- Retry budget of a single connection's reconnect loop; `maxAttempts = 0` is unlimited. -/
structure ReconnectPolicy where
  maxAttempts : UInt32
  baseBackoff : Duration
  maxBackoff : Duration
  connectTimeout : Duration
  deriving DecidableEq

namespace ReconnectPolicy

/-- `ReconnectPolicy::default`. -/
def default : ReconnectPolicy :=
  ⟨5, Duration.fromSecs 2, Duration.fromSecs 32, Duration.fromSecs 10⟩

/-- `ReconnectPolicy::mobile`: unlimited attempts, a 60 s ceiling. -/
def mobile : ReconnectPolicy :=
  ⟨0, Duration.fromSecs 2, Duration.fromSecs 60, Duration.fromSecs 10⟩

/-- True once `attempts` consecutive failures have used the budget up. -/
def exhausted (p : ReconnectPolicy) (attempts : UInt32) : Bool :=
  p.maxAttempts != 0 && decide (p.maxAttempts ≤ attempts)

/-- Rejects a policy the reconnect loops cannot honour. -/
def validate (p : ReconnectPolicy) : Except String Unit :=
  if p.baseBackoff.isZero then
    .error "reconnect.base_backoff must be greater than zero"
  else if ¬ p.baseBackoff ≤ p.maxBackoff then
    let base := p.baseBackoff.debug
    let ceiling := p.maxBackoff.debug
    .error s!"reconnect.base_backoff ({base}) must not exceed max_backoff ({ceiling})"
  else if p.connectTimeout.isZero then
    .error "reconnect.connect_timeout must be greater than zero"
  else .ok ()

theorem validate_eq_ok_iff (p : ReconnectPolicy) :
    p.validate = .ok () ↔
      p.baseBackoff.isZero = false ∧ p.baseBackoff ≤ p.maxBackoff ∧
        p.connectTimeout.isZero = false := by
  unfold validate
  cases p.baseBackoff.isZero <;> cases p.connectTimeout.isZero <;>
    by_cases h : p.baseBackoff ≤ p.maxBackoff <;> simp [h]

/-- The two policies the crate ships are accepted by its own check. -/
theorem validate_shipped : default.validate = .ok () ∧ mobile.validate = .ok () := by
  constructor <;> rw [validate_eq_ok_iff] <;> decide

end ReconnectPolicy

/-! ### Events -/

/-- Transport a connection ended up using. -/
inductive Transport
  | quic
  | h2
  deriving DecidableEq

/-- Wire name of the transport, as reported to consumers. -/
def Transport.asStr : Transport → String
  | .quic => "quic"
  | .h2 => "h2"

/-- Lifecycle of a single logical connection, one `(tag, server_addr)` pair. -/
inductive ConnectionEvent
  | established (tag serverAddr : String) (transport : Transport)
  | lost (tag serverAddr : String) (transport : Transport) (cause : String)
  | attemptFailed (tag serverAddr : String) (attempt : UInt32) (cause : String)
      (retryIn : Duration)
  | gaveUp (tag serverAddr : String) (cause : String)
  deriving DecidableEq

/-! ### Sessions and their outcome -/

/-- Why one attempt never carried traffic. -/
structure AttemptFailure where
  cause : String
  /-- Set when the ACME CA rate-limited the attempt. -/
  rateLimitedUntil : Option SystemTime
  deriving DecidableEq

/-- How one session, a QUIC connection or an H2 pool run, ended. -/
inductive SessionOutcome
  | stopped
  | lost
  | neverUp (failure : AttemptFailure)
  deriving DecidableEq

/-! ### Attempts and backoff -/

/-- Attempts-and-backoff bookkeeping shared by both transports of one connection. -/
structure RetryState where
  policy : ReconnectPolicy
  attempts : UInt32
  backoff : Duration
  deriving DecidableEq

namespace RetryState

/-- `RetryState::new`. -/
def new (policy : ReconnectPolicy) : RetryState := ⟨policy, 0, policy.baseBackoff⟩

/-- Number the attempt about to start carries in the logs. -/
def nextAttempt (s : RetryState) : UInt32 := saturatingAdd s.attempts 1

/-- One attempt that never carried traffic. -/
def failed (s : RetryState) : RetryState := { s with attempts := saturatingAdd s.attempts 1 }

/-- One attempt the relay rejected: counts as failed and backs off the most. -/
def rejected (s : RetryState) : RetryState :=
  failed { s with backoff := s.policy.maxBackoff }

/-- A session that carried traffic went down; clears the budget. -/
def recovered (s : RetryState) : RetryState :=
  { s with attempts := 0, backoff := s.policy.baseBackoff }

/-- `RetryState::exhausted`. -/
def exhausted (s : RetryState) : Bool := s.policy.exhausted s.attempts

/-- The state after `RetryState::wait` slept to the end: without a `delay` of its own the wait
used the backoff, which then doubles up to the ceiling. -/
def waited (s : RetryState) (delay : Option Duration) : RetryState :=
  match delay with
  | none => { s with backoff := min (s.backoff.saturatingMul 2) s.policy.maxBackoff }
  | some _ => s

@[simp] theorem failed_policy (s : RetryState) : s.failed.policy = s.policy := rfl
@[simp] theorem failed_backoff (s : RetryState) : s.failed.backoff = s.backoff := rfl
@[simp] theorem rejected_policy (s : RetryState) : s.rejected.policy = s.policy := rfl
@[simp] theorem rejected_backoff (s : RetryState) : s.rejected.backoff = s.policy.maxBackoff := rfl
@[simp] theorem rejected_attempts (s : RetryState) : s.rejected.attempts = s.failed.attempts := rfl
@[simp] theorem recovered_policy (s : RetryState) : s.recovered.policy = s.policy := rfl

@[simp] theorem waited_policy (s : RetryState) (d : Option Duration) :
    (s.waited d).policy = s.policy := by cases d <;> rfl

@[simp] theorem waited_attempts (s : RetryState) (d : Option Duration) :
    (s.waited d).attempts = s.attempts := by cases d <;> rfl

end RetryState

/-! ### The loop -/

/-- What `connection_run` charges a finished session with.  An error is the `bail!` that ends the
task; otherwise the new state, the cause to report (none for a plain loss) and the delay that
replaces the backoff, if any.  A rejection in the slot goes before the session's own outcome. -/
def charge (tag serverAddr : String) (retry : RetryState) (failure : Option AttemptFailure)
    (rejected : Option String) (now : SystemTime) :
    Except String (RetryState × Option String × Option Duration) :=
  match rejected with
  | some reason =>
    let retry := retry.rejected
    let attempts := retry.attempts
    if retry.exhausted then
      .error (s!"TUNNEL[{tag}/{serverAddr}]: giving up after {attempts} failed attempts, " ++
        s!"last one rejected by relay: {reason}")
    else .ok (retry, some s!"rejected by relay: {reason}", none)
  | none =>
    match failure with
    | some failure =>
      match failure.rateLimitedUntil with
      | some limit =>
        let wait := max ((limit.durationSince now).getD Duration.zero) retry.policy.baseBackoff
        .ok (retry, some failure.cause, some wait)
      | none =>
        let retry := retry.failed
        let attempts := retry.attempts
        if retry.exhausted then
          .error s!"TUNNEL[{tag}/{serverAddr}]: giving up after {attempts} failed attempts"
        else .ok (retry, some failure.cause, none)
    | none => .ok (retry.recovered, none, none)

/-- What one session leaves for the loop: its outcome, the rejection the loop takes out of the
slot, the wall clock, and whether `stop()` is signalled before the backoff has been slept. -/
structure SessionResult where
  outcome : SessionOutcome
  rejected : Option String
  now : SystemTime
  stopInWait : Bool
  deriving DecidableEq

/-- What the loop does after one session. -/
inductive Turn
  /-- `Ok(())`: the tunnel was asked to stop. -/
  | returned
  /-- The task ends with an error. -/
  | gaveUp (error : String)
  /-- At most one event, then a wait of `retryIn`. -/
  | again (report : Option ConnectionEvent) (retryIn : Duration)
  deriving DecidableEq

/-- The failure a session outcome carries. -/
def SessionOutcome.failure : SessionOutcome → Option AttemptFailure
  | .neverUp f => some f
  | _ => none

/-- The reconnect loop of `connection_run`, fed with the results of its sessions. -/
def connectionRun (tag serverAddr : String) : RetryState → List SessionResult → List Turn
  | _, [] => []
  | retry, r :: rs =>
    if r.outcome = .stopped then [.returned]
    else
      match charge tag serverAddr retry r.outcome.failure r.rejected r.now with
      | .error e => [.gaveUp e]
      | .ok (retry', cause, delay) =>
        let retryIn := delay.getD retry'.backoff
        let report := cause.map fun c =>
          ConnectionEvent.attemptFailed tag serverAddr retry.nextAttempt c retryIn
        if r.stopInWait then [.again report retryIn, .returned]
        else .again report retryIn :: connectionRun tag serverAddr (retry'.waited delay) rs

end QuicTunnel
