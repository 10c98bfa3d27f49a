import QuicTunnel.Common.Time

/-!
# Liveness of an H2 connection

`H2KeepAlive` and `h2_ping_loop` (`tunnel-common/src/lib.rs`), with a clock: the loop sleeps for the
interval, then waits for a pong until the timeout, and returns when that runs out or the ping fails.
-/

namespace QuicTunnel

/-- `H2_PING_INTERVAL`. -/
def h2PingInterval : Duration := .fromSecs 10

/-- `H2_PING_TIMEOUT`. -/
def h2PingTimeout : Duration := .fromSecs 20

structure H2KeepAlive where
  interval : Duration
  timeout : Duration

namespace H2KeepAlive

/-- `H2KeepAlive::default`. -/
def default : H2KeepAlive := ⟨h2PingInterval, h2PingTimeout⟩

variable (keepalive : H2KeepAlive)

/-- How long a peer may be silent. -/
def window : ℕ := keepalive.interval.nanos + keepalive.timeout.nanos

end H2KeepAlive

/-- `h2_ping_loop` at its two awaits, or returned. -/
inductive PingLoop
  | sleeping (wakeAt : ℕ)
  | pinging (deadline : ℕ)
  | returned (cause : String)
  deriving DecidableEq

inductive PingEvent
  | wake
  | pong
  | failed (e : String)
  | timeout
  deriving DecidableEq

namespace PingLoop

/-- The loop as it is entered. -/
def start (keepalive : H2KeepAlive) (now : ℕ) : PingLoop :=
  .sleeping (now + keepalive.interval.nanos)

def step (keepalive : H2KeepAlive) (now : ℕ) : PingLoop → PingEvent → Option PingLoop
  | .sleeping wakeAt, .wake =>
    if wakeAt ≤ now then some (.pinging (now + keepalive.timeout.nanos)) else none
  | .pinging _, .pong => some (start keepalive now)
  | .pinging _, .failed e => some (.returned s!"H2 PING failed: {e}")
  | .pinging deadline, .timeout =>
    if deadline ≤ now then some (.returned s!"no H2 PONG within {keepalive.timeout.debug}")
    else none
  | _, _ => none

/-- The timer the loop waits for. -/
def timer : PingLoop → Option ℕ
  | .sleeping t | .pinging t => some t
  | .returned _ => none

/-- The loop waits no longer than the window from `heard` on, when the peer was last heard of. -/
def Patient (keepalive : H2KeepAlive) (heard : ℕ) : PingLoop → Prop
  | .sleeping wakeAt => wakeAt ≤ heard + keepalive.interval.nanos
  | .pinging deadline => deadline ≤ heard + keepalive.window
  | .returned _ => True

theorem patient_start (keepalive : H2KeepAlive) (now : ℕ) :
    (start keepalive now).Patient keepalive now := le_refl _

/-- A pong is heard of; whatever else happens, the loop has not waited too long if its timers are
served in time. -/
theorem Patient.step {keepalive : H2KeepAlive} {heard now : ℕ} {loop loop' : PingLoop}
    {e : PingEvent} (h : loop.Patient keepalive heard) (hahead : ∀ t, loop.timer = some t → now ≤ t)
    (hstep : loop.step keepalive now e = some loop') :
    loop'.Patient keepalive (if e = .pong then now else heard) ∧
      ∀ t, loop'.timer = some t → now ≤ t := by
  unfold PingLoop.step at hstep
  split at hstep
  · rename_i wakeAt
    split_ifs at hstep
    cases hstep
    have hnow : now ≤ wakeAt := hahead wakeAt rfl
    have hpatient : wakeAt ≤ heard + keepalive.interval.nanos := h
    refine ⟨?_, ?_⟩
    · show now + keepalive.timeout.nanos ≤ heard + keepalive.window
      unfold H2KeepAlive.window
      omega
    · rintro t ⟨⟩
      exact Nat.le_add_right _ _
  · cases hstep
    refine ⟨patient_start keepalive now, ?_⟩
    rintro t ⟨⟩
    exact Nat.le_add_right _ _
  · cases hstep
    exact ⟨trivial, nofun⟩
  · split_ifs at hstep
    cases hstep
    exact ⟨trivial, nofun⟩
  · cases hstep

/-- A timer that lies ahead is no later than the window allows. -/
theorem Patient.le {keepalive : H2KeepAlive} {heard now t : ℕ} {loop : PingLoop}
    (h : loop.Patient keepalive heard) (hahead : ∀ t, loop.timer = some t → now ≤ t)
    (ht : loop.timer = some t) : now ≤ heard + keepalive.window := by
  have hnow := hahead t ht
  cases loop with
  | sleeping wakeAt =>
    cases ht
    exact hnow.trans (h.trans (by unfold H2KeepAlive.window; omega))
  | pinging deadline =>
    cases ht
    exact hnow.trans h
  | returned cause => cases ht

end PingLoop

end QuicTunnel
