import QuicTunnel.Base.Watch
import QuicTunnel.Client.Retry

/-!
# The H2 pool

`PoolLiveness`, `H2Shared` and `H2Pooled::drive` (`tunnel-client/src/client.rs`): the members of a
pool, what they share, and what each does between two awaits.

A member is a task, so other threads see it between any two accesses to shared state.  `MemberPc`
has an await point for every `await` of `drive` and `attempt`, and a point in front of every access
to shared state in between (`record_failure`, the rejection slot, `up`, `down`, `park`, `unpark`,
the stop flag).  Dropping the `JoinSet` aborts a member at its next await; until then it runs on.
-/

namespace QuicTunnel

/-! ### Liveness -/

/-- Pool-level `Established`/`Lost`.  The two `Notify`s hold at most one permit each. -/
structure PoolLiveness where
  tag : String
  serverAddr : String
  size : ℕ
  /-- Members that have completed the control exchange and not yet dropped. -/
  live : ℕ
  /-- Whether the pool was ever up during this session. -/
  everUp : Bool
  /-- Members waiting for a sibling to come up after a failed attempt. -/
  parked : ℕ
  /-- Notified on every 1→0 transition. -/
  wentDown : Bool
  /-- Bumped on every 0→1 transition; wakes parked members. -/
  cameUp : Watch ℕ
  /-- Notified once every member is parked with none up. -/
  allParked : Bool
  deriving DecidableEq

namespace PoolLiveness

/-- `PoolLiveness::new`. -/
def new (tag serverAddr : String) (size : ℕ) : PoolLiveness :=
  ⟨tag, serverAddr, size, 0, false, 0, false, .channel 0, false⟩

/-- One pooled connection completed its control exchange. -/
def up (p : PoolLiveness) : PoolLiveness × Option ConnectionEvent :=
  let p := { p with live := p.live + 1, everUp := true }
  if p.live = 1 then
    ({ p with cameUp := p.cameUp.send (p.cameUp.value + 1) },
      some (.established p.tag p.serverAddr .h2))
  else (p, none)

/-- One pooled connection that had been up went away; `stopped` suppresses the event. -/
def down (p : PoolLiveness) (cause : String) (stopped : Bool) :
    PoolLiveness × Option ConnectionEvent :=
  let p := { p with live := p.live - 1 }
  if p.live = 0 then
    ({ p with wentDown := true },
      if stopped then none else some (.lost p.tag p.serverAddr .h2 cause))
  else (p, none)

/-- Parks a member whose attempt failed while no sibling is up: the version of `came_up` its
receiver starts from, or `none` when a sibling is up. -/
def park (p : PoolLiveness) : PoolLiveness × Option ℕ :=
  if p.live > 0 then (p, none)
  else
    let p := { p with parked := p.parked + 1 }
    ({ p with allParked := p.allParked || decide (p.size ≤ p.parked) }, some p.cameUp.version)

/-- `PoolLiveness::unpark`. -/
def unpark (p : PoolLiveness) : PoolLiveness := { p with parked := p.parked - 1 }

end PoolLiveness

/-! ### Members -/

/-- Where a member is. -/
inductive MemberPc
  /-- Awaits the connect. -/
  | connecting
  /-- Awaits the control exchange. -/
  | exchanging
  /-- Before `record_failure`. -/
  | failing (failure : AttemptFailure)
  /-- Before the write to the rejection slot. -/
  | rejecting (reason : String)
  /-- Before `live.up()`. -/
  | ready
  /-- Awaits streams. -/
  | serving
  /-- Before `live.down(..)`. -/
  | dropping (cause : String)
  /-- Before `live.park()`. -/
  | parking
  /-- Awaits `came_up.changed()`, having seen a version. -/
  | parked (seen : ℕ)
  /-- Before `live.unpark()`. -/
  | unparking (woke : Bool)
  /-- Before it reads the stop flag. -/
  | retrying
  /-- Awaits its backoff. -/
  | sleeping
  /-- `drive` has returned. -/
  | ended
  deriving DecidableEq

/-- The await points, at which an aborted member is gone. -/
def MemberPc.awaits : MemberPc → Bool
  | .connecting | .exchanging | .serving | .parked _ | .sleeping | .ended => true
  | _ => false

/-- Between its `up` and its `down`. -/
def MemberPc.isUp : MemberPc → Bool
  | .serving | .dropping _ => true
  | _ => false

structure Member where
  backoff : Duration
  pc : MemberPc
  deriving DecidableEq

/-- A pool: the liveness, the latest member failure, the members, and whether the session has
dropped their `JoinSet`. -/
structure Pool where
  liveness : PoolLiveness
  failed : Option AttemptFailure
  members : List Member
  aborted : Bool
  deriving DecidableEq

namespace Pool

/-- A pool as `h2_pool` starts it. -/
def new (tag serverAddr : String) (size : ℕ) (policy : ReconnectPolicy) : Pool where
  liveness := .new tag serverAddr size
  failed := none
  members := List.replicate size ⟨policy.baseBackoff, .connecting⟩
  aborted := false

/-- `H2Shared::take_failure`. -/
def takeFailure (p : Pool) : AttemptFailure × Pool :=
  (p.failed.getD ⟨"no pooled connection came up", none⟩, { p with failed := none })

/-- Member `i` moves on. -/
def goto (p : Pool) (i : ℕ) (m : Member) (pc : MemberPc) : Pool :=
  { p with members := p.members.set i { m with pc := pc } }

end Pool

/-- How an await ends, or that the code runs on. -/
inductive MemberInput
  | connectFailed (failure : AttemptFailure)
  | connected
  | rejected (reason : String)
  /-- The exchange, a ping or the TLS acceptor behind the exchange failed. -/
  | exchangeFailed (failure : AttemptFailure)
  | exchanged
  | dropped (cause : String)
  | woken
  | slept
  | stopped
  | go
  deriving DecidableEq

/-- What a member's step leaves: the pool, a rejection for the slot, an event. -/
structure MemberStep where
  pool : Pool
  rejected : Option String
  event : Option ConnectionEvent

/-- One step of member `i` in the state `m`; `stopped` is the stop flag. -/
def memberStep (policy : ReconnectPolicy) (stopped : Bool) (p : Pool) (i : ℕ) (m : Member) :
    MemberInput → Option MemberStep := fun input =>
  match m.pc, input with
  | .connecting, .connectFailed f => some ⟨p.goto i m (.failing f), none, none⟩
  | .connecting, .connected => some ⟨p.goto i m .exchanging, none, none⟩
  | .exchanging, .rejected reason => some ⟨p.goto i m (.rejecting reason), none, none⟩
  | .exchanging, .exchangeFailed f => some ⟨p.goto i m (.failing f), none, none⟩
  | .exchanging, .exchanged => some ⟨p.goto i m .ready, none, none⟩
  | .failing f, .go => some ⟨{ p.goto i m .parking with failed := some f }, none, none⟩
  | .rejecting reason, .go => some ⟨p.goto i m .parking, some reason, none⟩
  | .ready, .go =>
    some ⟨{ p.goto i m .serving with liveness := p.liveness.up.1 }, none, p.liveness.up.2⟩
  | .serving, .dropped cause => some ⟨p.goto i m (.dropping cause), none, none⟩
  | .dropping cause, .go =>
    -- `served`: the backoff starts over
    let m := { m with backoff := policy.baseBackoff }
    some ⟨{ p.goto i m .retrying with liveness := (p.liveness.down cause stopped).1 }, none,
      (p.liveness.down cause stopped).2⟩
  | .parking, .go =>
    match p.liveness.park with
    | (_, none) => some ⟨p.goto i m .retrying, none, none⟩
    | (l, some seen) => some ⟨{ p.goto i m (.parked seen) with liveness := l }, none, none⟩
  | .parked seen, .woken =>
    match p.liveness.cameUp.changed seen with
    | some (.ok _) => some ⟨p.goto i m (.unparking true), none, none⟩
    | some (.error _) => some ⟨p.goto i m (.unparking false), none, none⟩
    | none => none
  | .parked _, .stopped =>
    if stopped then some ⟨p.goto i m (.unparking false), none, none⟩ else none
  | .unparking woke, .go =>
    some ⟨{ p.goto i m (if woke then .retrying else .ended) with liveness := p.liveness.unpark },
      none, none⟩
  | .retrying, .go => some ⟨p.goto i m (if stopped then .ended else .sleeping), none, none⟩
  | .sleeping, .slept =>
    let m := { m with backoff := min (m.backoff.saturatingMul 2) policy.maxBackoff }
    some ⟨p.goto i m .connecting, none, none⟩
  | .sleeping, .stopped => if stopped then some ⟨p.goto i m .ended, none, none⟩ else none
  | _, _ => none

/-- A step of member `i`, unless the abort has reached it. -/
def Pool.step (policy : ReconnectPolicy) (stopped : Bool) (p : Pool) (i : ℕ)
    (input : MemberInput) : Option MemberStep :=
  p.members[i]?.bind fun m =>
    if p.aborted && m.pc.awaits then none else memberStep policy stopped p i m input

end QuicTunnel
