import QuicTunnel.Common.KeepAlive
import QuicTunnel.Relay.Registration

/-!
# The tasks of an H2 connection

`handle_h2_connection` (`tunnel-server/src/h2_listener.rs`) runs as three tasks: the handler itself
(`Relay.World`), the driver `conn_task`, which polls the H2 connection and raises its flow-control
windows once it is told to, and, after the authentication, the supervisor, which watches the driver
and pings the peer.

* `raise` is the channel by which the handler tells the driver to raise the windows; it is dropped
  when the handler gives up without having used it;
* an `abort` takes effect when the driver is next polled (`reap`);
* `done`, which the clean-up of a registration awaits, is the end of the supervisor; the clean-up is
  a task of its own by then, which `Relay.World` runs on from the handler.

Time passes up to the next timer, and only while no task can run: a driver that was told to stop
stops, and what the handler has left to do when the driver is gone waits for nothing, since every
request it is waiting for has failed.
-/

namespace QuicTunnel.Relay

/-- `CTRL_STREAM_WINDOW`. -/
def ctrlStreamWindow : ℕ := 16 * 1024

/-- `CTRL_CONN_WINDOW`. -/
def ctrlConnWindow : ℕ := 64 * 1024

/-- `H2_DATA_STREAM_WINDOW`. -/
def h2DataStreamWindow : ℕ := 10000000

/-- `H2_DATA_CONN_WINDOW`. -/
def h2DataConnWindow : ℕ := 10000000

/-- `WINDOW_RAISE_RETRY`. -/
def windowRaiseRetry : Duration := .fromMillis 50

/-- `WINDOW_RAISE_ATTEMPTS`. -/
def windowRaiseAttempts : ℕ := 200

/-- `done` has resolved, and the handler cleans up. -/
def Pc.isCleanup : Pc → Bool
  | .unlink _ _ | .sweep _ => true
  | _ => false

theorem Pc.isCleanup_eq_false {pc : Pc}
    (h : pc.inAuthExchange = true ∨ pc.frame?.isSome = true) : pc.isCleanup = false := by
  cases pc <;> first | rfl | (rcases h with h | h <;> cases h)

namespace H2Tasks

open Transition

/-- `conn_task`. -/
inductive Driver
  /-- Not spawned yet. -/
  | absent
  /-- In its `select!`. -/
  | selecting
  /-- The channel was dropped: the connection is polled as it is. -/
  | plain
  /-- In `raise_windows`, before the attempt at the time `next`. -/
  | raising (attempt next : ℕ)
  /-- The windows are raised. -/
  | serving
  | ended
  deriving DecidableEq

def Driver.isLive : Driver → Bool
  | .absent | .ended => false
  | _ => true

/-- The sender of the raise channel. -/
inductive Raise
  | held
  | sent
  | dropped
  deriving DecidableEq

inductive Supervisor
  | absent
  /-- In its `select!`, with the ping loop if the connection has pings. -/
  | watching (pings : Option PingLoop)
  | ended
  deriving DecidableEq

structure State where
  now : ℕ
  conn : Conn
  driver : Driver
  raise : Raise
  /-- `abort` was called on the driver. -/
  aborted : Bool
  connWindow : ℕ
  streamWindow : ℕ
  /-- `ping_pong()` gave the pings of the connection. -/
  pingPong : Bool
  supervisor : Supervisor
  /-- When the peer was last heard of: at the authentication, or by a pong. -/
  heard : ℕ
  /-- Nothing is left to do: the handler gave up and returned `None`, or the clean-up is through
  that `register` spawned.  A handler that registered returns as soon as it has spawned that. -/
  through : Bool

def init (now : ℕ) (pingPong : Bool) : State where
  now := now
  conn := .incoming .h2
  driver := .absent
  raise := .held
  aborted := false
  connWindow := ctrlConnWindow
  streamWindow := ctrlStreamWindow
  pingPong := pingPong
  supervisor := .absent
  heard := now
  through := false

inductive Event
  | pass (d : ℕ)
  /-- A step of the handler; `token` is what the token counter of the relay holds. -/
  | input (token : ℕ) (i : Input)
  /-- The handler gives up: it returns `None`. -/
  | leave
  /-- The H2 connection ends by itself. -/
  | closes
  /-- The abort takes effect. -/
  | reap
  /-- The driver sees the raise channel resolved. -/
  | signal
  /-- `set_initial_window_size` is tried. -/
  | attempt (ok : Bool)
  /-- Every attempt has failed. -/
  | giveUp
  | ping (e : PingEvent)
  /-- The supervisor sees that the driver has ended. -/
  | joined
  deriving DecidableEq

namespace State

variable (s : State)

/-- What the handler does to the other tasks when it comes to where `c` is. -/
def handled (keepalive : H2KeepAlive) (c : Conn) : State :=
  match s.conn.pc, c.pc with
  | .openControl, .readDomain => { s with conn := c, driver := .selecting }
  | .readKeyAuth _, .readKeyAuth _ => { s with conn := c }
  | _, .readKeyAuth _ =>
    { s with
      conn := c
      raise := .sent
      supervisor := .watching (if s.pingPong then some (.start keepalive s.now) else none)
      heard := s.now }
  | .sweep _, .gone _ => { s with conn := c, through := true }
  | _, _ => { s with conn := c }

/-- A task can run. -/
def runnable : Bool :=
  (s.aborted && s.driver.isLive) ||
  (s.supervisor = .ended && !s.through) ||
  (s.supervisor ≠ .absent && s.supervisor ≠ .ended && s.driver = .ended) ||
  (s.driver = .selecting && s.raise ≠ .held)

/-- The timers that are running. -/
def timers : List ℕ :=
  (match s.supervisor with
    | .watching (some pings) => pings.timer.toList
    | _ => []) ++
  match s.driver with
  | .raising _ next => [next]
  | _ => []

def mayPass (d : ℕ) : Bool := !s.runnable && s.timers.all (s.now + d ≤ ·)

/-- A step of the ping loop. -/
def pinged (keepalive : H2KeepAlive) (e : PingEvent) (pings : PingLoop) : Option State :=
  (pings.step keepalive s.now e).map fun
    | .returned _ => { s with supervisor := .ended, aborted := true }
    | pings =>
      { s with supervisor := .watching (some pings), heard := if e = .pong then s.now else s.heard }

end State

def step (env : Env) (cfg : Config) (keepalive : H2KeepAlive) (s : State) : Event → Option State
  | .pass d => if s.mayPass d then some { s with now := s.now + d } else none
  | .input token i =>
    if s.through ∨ (i = .closed ∧ s.supervisor ≠ .ended) then none
    else (s.conn.step env cfg token i).map fun (c, _) => s.handled keepalive c
  | .leave =>
    if s.conn.pc.isGone && !s.through then
      some { s with
        through := true
        aborted := s.aborted || s.driver ≠ .absent
        raise := if s.raise = .held then .dropped else s.raise }
    else none
  | .closes => if s.driver.isLive then some { s with driver := .ended } else none
  | .reap => if s.aborted && s.driver.isLive then some { s with driver := .ended } else none
  | .signal =>
    match s.driver, s.raise with
    | .selecting, .sent =>
      some { s with driver := .raising 0 s.now, connWindow := h2DataConnWindow }
    | .selecting, .dropped => some { s with driver := .plain }
    | _, _ => none
  | .attempt ok =>
    match s.driver with
    | .raising attempt next =>
      if next ≤ s.now ∧ attempt < windowRaiseAttempts then
        if ok then some { s with driver := .serving, streamWindow := h2DataStreamWindow }
        else some { s with driver := .raising (attempt + 1) (s.now + windowRaiseRetry.nanos) }
      else none
    | _ => none
  | .giveUp =>
    match s.driver with
    | .raising attempt next =>
      if next ≤ s.now ∧ windowRaiseAttempts ≤ attempt then some { s with driver := .ended }
      else none
    | _ => none
  | .ping e =>
    match s.supervisor with
    | .watching (some pings) => s.pinged keepalive e pings
    | _ => none
  | .joined =>
    match s.supervisor with
    | .watching _ => if s.driver = .ended then some { s with supervisor := .ended } else none
    | _ => none

/-! ### What a step can do -/

variable {env : Env} {cfg : Config} {keepalive : H2KeepAlive}

/-- What a step of the handler does. -/
inductive Handled (keepalive : H2KeepAlive) (s : State) (i : Input) (c : Conn) : State → Prop
  | opened (hpc : s.conn.pc = .openControl) (hpc' : c.pc = .readDomain) :
    Handled keepalive s i c { s with conn := c, driver := .selecting }
  | authenticated {id : String} (hpc' : c.pc = .readKeyAuth id) :
    Handled keepalive s i c
      { s with
        conn := c
        raise := .sent
        supervisor := .watching (if s.pingPong then some (.start keepalive s.now) else none)
        heard := s.now }
  | swept {id : String} {verdict : Verdict} (hpc : s.conn.pc = .sweep id)
    (hpc' : c.pc = .gone verdict) :
    Handled keepalive s i c { s with conn := c, through := true }
  | moved (hclient : c.pc.client?.isSome = true → s.conn.pc.client?.isSome = true)
    (hcleanup : c.pc.isCleanup = true → i = .closed ∨ s.conn.pc.isCleanup = true) :
    Handled keepalive s i c { s with conn := c }

/-- What arrives from the peer does nothing to the other tasks. -/
theorem State.handled_of_eq {s : State} {c : Conn} (h : c.pc = s.conn.pc) :
    s.handled keepalive c = { s with conn := c } := by
  unfold State.handled
  rw [h]
  cases s.conn.pc <;> rfl

/-- Neither does a handler that gives up, until it returns. -/
theorem State.handled_of_gone {s : State} {c : Conn} {verdict : Verdict} (h : c.pc = .gone verdict)
    (hpc : s.conn.pc.isCleanup = false) : s.handled keepalive c = { s with conn := c } := by
  unfold State.handled
  rw [h]
  cases hs : s.conn.pc <;> first | rfl | (rw [hs] at hpc; cases hpc)

theorem handled_cases {s : State} {token : ℕ} {i : Input} {c : Conn} {op : MapOp}
    (hmove : s.conn.Move env cfg token i c op) :
    Handled keepalive s i c (s.handled keepalive c) := by
  cases hmove with
  | data | fin =>
    rw [State.handled_of_eq (by rfl)]
    exact .moved id .inr
  | opened hpc =>
    simp only [State.handled, hpc]
    exact .opened hpc rfl
  | identified _ hpc | authorized hpc =>
    simp only [State.handled, hpc]
    exact .authenticated rfl
  | swept hpc =>
    simp only [State.handled, hpc]
    exact .swept hpc rfl
  | accepted hpc | announced _ hpc | lookUp _ hpc | noKeyAuth hpc | notUtf8 _ hpc
  | unidentified _ hpc | unauthorized hpc =>
    simp only [State.handled, hpc]
    exact .moved nofun nofun
  | cached _ hpc | challenge _ hpc | inserted hpc | acked hpc | notAcked hpc | done _ hpc
  | removed hpc | abandoned hpc | registered _ hpc =>
    simp only [State.handled, hpc]
    exact .moved (fun _ => by rw [hpc]; rfl) nofun
  | closed hpc =>
    simp only [State.handled, hpc]
    exact .moved (fun _ => by rw [hpc]; rfl) fun _ => .inl rfl
  | unlinked hpc =>
    simp only [State.handled, hpc]
    exact .moved (fun _ => by rw [hpc]; rfl) fun _ => .inr (by rw [hpc]; rfl)
  | refused verdict hpc =>
    rcases hpc with hpc | hpc <;> simp only [State.handled, hpc] <;> exact .moved nofun nofun
  | timedOut verdict hpc =>
    rw [State.handled_of_gone rfl (Pc.isCleanup_eq_false (.inl hpc))]
    exact .moved nofun nofun
  | readFailed _ hframe =>
    rw [State.handled_of_gone rfl (Pc.isCleanup_eq_false (.inr hframe))]
    exact .moved nofun nofun

/-- A step of the three tasks. -/
inductive Step (env : Env) (cfg : Config) (keepalive : H2KeepAlive) (s : State) :
    Event → State → Prop
  | passed {d : ℕ} (hidle : s.runnable = false) (htimers : ∀ t ∈ s.timers, s.now + d ≤ t) :
    Step env cfg keepalive s (.pass d) { s with now := s.now + d }
  | input {token : ℕ} {i : Input} {c : Conn} {op : MapOp} {t : State}
    (hthrough : s.through = false) (hclosed : i = .closed → s.supervisor = .ended)
    (hmove : s.conn.Move env cfg token i c op) (hhandled : Handled keepalive s i c t) :
    Step env cfg keepalive s (.input token i) t
  | left (hgone : s.conn.pc.isGone = true) :
    Step env cfg keepalive s .leave
      { s with
        through := true
        aborted := s.aborted || s.driver ≠ .absent
        raise := if s.raise = .held then .dropped else s.raise }
  | driverEnded {e : Event} (hlive : s.driver.isLive = true) :
    Step env cfg keepalive s e { s with driver := .ended }
  | raise (hdriver : s.driver = .selecting) (hraise : s.raise = .sent) :
    Step env cfg keepalive s .signal
      { s with driver := .raising 0 s.now, connWindow := h2DataConnWindow }
  | keep (hdriver : s.driver = .selecting) (hraise : s.raise = .dropped) :
    Step env cfg keepalive s .signal { s with driver := .plain }
  | raised {attempt next : ℕ} (hdriver : s.driver = .raising attempt next) :
    Step env cfg keepalive s (.attempt true)
      { s with driver := .serving, streamWindow := h2DataStreamWindow }
  | retry {attempt next : ℕ} (hdriver : s.driver = .raising attempt next) :
    Step env cfg keepalive s (.attempt false)
      { s with driver := .raising (attempt + 1) (s.now + windowRaiseRetry.nanos) }
  | pinged {e : PingEvent} {pings pings' : PingLoop} {t : ℕ}
    (hsupervisor : s.supervisor = .watching (some pings))
    (hstep : pings.step keepalive s.now e = some pings') (htimer : pings'.timer = some t) :
    Step env cfg keepalive s (.ping e)
      { s with
        supervisor := .watching (some pings')
        heard := if e = .pong then s.now else s.heard }
  | silent {e : PingEvent} {pings : PingLoop}
    (hsupervisor : s.supervisor = .watching (some pings)) :
    Step env cfg keepalive s (.ping e) { s with supervisor := .ended, aborted := true }
  | joined {pings : Option PingLoop} (hsupervisor : s.supervisor = .watching pings)
    (hdriver : s.driver = .ended) :
    Step env cfg keepalive s .joined { s with supervisor := .ended }

theorem step_cases {s t : State} {e : Event} (h : step env cfg keepalive s e = some t) :
    Step env cfg keepalive s e t := by
  unfold step at h
  split at h
  · split_ifs at h with hpass
    cases h
    obtain ⟨hidle, htimers⟩ := Bool.and_eq_true_iff.1 hpass
    refine .passed (by simpa using hidle) fun t ht => ?_
    exact of_decide_eq_true (List.all_eq_true.1 htimers t ht)
  · split_ifs at h with hguard
    rw [not_or, not_and_not_right, Bool.not_eq_true] at hguard
    obtain ⟨⟨c, op⟩, hstep, rfl⟩ := Option.map_eq_some_iff.1 h
    have hmove := Conn.step_move hstep
    exact .input hguard.1 hguard.2 hmove (handled_cases hmove)
  · split at h
    · rename_i hgone
      cases h
      exact .left (Bool.and_eq_true_iff.1 hgone).1
    · cases h
  · split_ifs at h with hlive
    cases h
    exact .driverEnded hlive
  · split_ifs at h with hreap
    cases h
    exact .driverEnded (Bool.and_eq_true_iff.1 hreap).2
  · split at h
    · cases h
      exact .raise ‹_› ‹_›
    · cases h
      exact .keep ‹_› ‹_›
    · cases h
  · split at h
    · split_ifs at h with hdue hok
      · cases h
        subst hok
        exact .raised ‹_›
      · cases h
        rw [Bool.not_eq_true] at hok
        subst hok
        exact .retry ‹_›
    · cases h
  · split at h
    · rename_i hdriver
      split_ifs at h
      cases h
      exact .driverEnded (by rw [hdriver]; rfl)
    · cases h
  · split at h
    · rename_i hsupervisor
      obtain ⟨pings', hstep, rfl⟩ := Option.map_eq_some_iff.1 h
      cases pings' with
      | returned cause => exact .silent hsupervisor
      | sleeping t => exact .pinged hsupervisor hstep rfl
      | pinging t => exact .pinged hsupervisor hstep rfl
    · cases h
  · split at h
    · split_ifs at h with hdriver
      cases h
      exact .joined ‹_› hdriver
    · cases h

/-! ### The invariant -/

structure Inv (env : Env) (cfg : Config) (keepalive : H2KeepAlive) (s : State) : Prop where
  evident : s.conn.Evident env cfg
  /-- The windows are raised only after the handler said so. -/
  windows : s.raise ≠ .sent →
    s.connWindow = ctrlConnWindow ∧ s.streamWindow = ctrlStreamWindow ∧
      s.driver ≠ .serving ∧ ∀ attempt next, s.driver ≠ .raising attempt next
  /-- It says so only of a peer that passed every check. -/
  complete : s.raise = .sent → s.conn.pc.settled = true ∧
    ∃ id, s.conn.seen.Complete env cfg id
  /-- Whoever is served is supervised. -/
  supervised : s.conn.pc.client?.isSome = true → s.supervisor ≠ .absent
  settled : s.supervisor ≠ .absent → s.conn.pc.settled = true
  /-- The supervisor ends with the driver. -/
  ended : s.supervisor = .ended → s.driver = .ended ∨ s.aborted = true
  cleanup : s.conn.pc.isCleanup = true → s.supervisor = .ended
  /-- No driver is left behind. -/
  released : s.through = true →
    s.driver = .absent ∨ s.driver = .ended ∨ s.aborted = true
  /-- The ping loop has a timer, which lies ahead. -/
  patient : ∀ pings, s.supervisor = .watching (some pings) →
    pings.Patient keepalive s.heard ∧ (∃ t, pings.timer = some t) ∧
      ∀ t, pings.timer = some t → s.now ≤ t
  pings : s.pingPong = true → s.supervisor ≠ .watching none
  /-- What is left to do when the supervisor has ended takes no time. -/
  prompt : s.pingPong = true → s.supervisor = .ended → s.through = false →
    s.now ≤ s.heard + keepalive.window

theorem inv_init (start : ℕ) (pingPong : Bool) :
    Inv env cfg keepalive (init start pingPong) where
  evident := trivial
  windows _ := ⟨rfl, rfl, nofun, nofun⟩
  complete := nofun
  supervised := nofun
  settled h := absurd rfl h
  ended := nofun
  cleanup := nofun
  released := nofun
  patient := nofun
  pings := nofun
  prompt := nofun

theorem Inv.moved {s : State} {i : Input} {token : ℕ} {c : Conn} {op : MapOp}
    (h : Inv env cfg keepalive s) (hmove : s.conn.Move env cfg token i c op)
    (hclosed : i = .closed → s.supervisor = .ended)
    (hclient : c.pc.client?.isSome = true → s.conn.pc.client?.isSome = true)
    (hcleanup : c.pc.isCleanup = true → i = .closed ∨ s.conn.pc.isCleanup = true) :
    Inv env cfg keepalive { s with conn := c } :=
  { h with
    evident := hmove.evident h.evident
    complete := fun hraise => by
      obtain ⟨hsettled, id, hcomplete⟩ := h.complete hraise
      obtain ⟨hsettled', hseen⟩ := hmove.settled hsettled
      exact ⟨hsettled', id, hseen ▸ hcomplete⟩
    supervised := fun hc => h.supervised (hclient hc)
    settled := fun hsupervisor => (hmove.settled (h.settled hsupervisor)).1
    cleanup := fun hc => (hcleanup hc).elim hclosed h.cleanup }

theorem Inv.authenticated {s : State} {i : Input} {token : ℕ} {c : Conn} {op : MapOp}
    {id : String} (h : Inv env cfg keepalive s) (hmove : s.conn.Move env cfg token i c op)
    (hpc' : c.pc = .readKeyAuth id) :
    Inv env cfg keepalive
      { s with
        conn := c
        raise := .sent
        supervisor := .watching (if s.pingPong then some (.start keepalive s.now) else none)
        heard := s.now } where
  evident := hmove.evident h.evident
  windows hraise := absurd rfl hraise
  complete _ := by
    refine ⟨by simp only [hpc']; rfl, id, ?_⟩
    exact (hmove.evident h.evident).complete (by rw [hpc']; rfl)
  supervised _ := nofun
  settled _ := by
    simp only [hpc']
    rfl
  ended := nofun
  cleanup hc := by
    simp only [hpc'] at hc
    cases hc
  released := h.released
  patient pings hpings := by
    simp only [Supervisor.watching.injEq] at hpings
    split_ifs at hpings
    cases hpings
    refine ⟨PingLoop.patient_start keepalive s.now, ⟨_, rfl⟩, ?_⟩
    rintro t ⟨⟩
    exact Nat.le_add_right _ _
  pings hping := by
    simp only at hping
    simp [hping]
  prompt _ := nofun

theorem Inv.pinged {s : State} {e : PingEvent} {pings pings' : PingLoop} {t : ℕ}
    (h : Inv env cfg keepalive s) (hsupervisor : s.supervisor = .watching (some pings))
    (hstep : pings.step keepalive s.now e = some pings') (htimer : pings'.timer = some t) :
    Inv env cfg keepalive
      { s with
        supervisor := .watching (some pings')
        heard := if e = .pong then s.now else s.heard } :=
  { h with
    supervised := fun _ => nofun
    settled := fun _ => h.settled (by rw [hsupervisor]; exact nofun)
    ended := nofun
    cleanup := fun hc => by
      have := h.cleanup hc
      rw [hsupervisor] at this
      cases this
    patient := by
      rintro _ ⟨⟩
      obtain ⟨hpatient, -, hahead⟩ := h.patient pings hsupervisor
      obtain ⟨hpatient', hahead'⟩ := hpatient.step hahead hstep
      exact ⟨hpatient', ⟨t, htimer⟩, hahead'⟩
    pings := fun _ => nofun
    prompt := fun _ => nofun }

/-- The supervisor ends while the peer's time has not run out, or because it has. -/
theorem Inv.unsupervised {s : State} {pings : Option PingLoop} {aborted : Bool}
    (h : Inv env cfg keepalive s) (hsupervisor : s.supervisor = .watching pings)
    (hended : s.driver = .ended ∨ aborted = true)
    (haborted : s.aborted = true → aborted = true) :
    Inv env cfg keepalive { s with supervisor := .ended, aborted := aborted } :=
  { h with
    supervised := fun _ => nofun
    settled := fun _ => h.settled (by rw [hsupervisor]; exact nofun)
    ended := fun _ => hended
    cleanup := fun _ => rfl
    released := fun hthrough => (h.released hthrough).imp_right fun hd => hd.imp_right haborted
    patient := nofun
    pings := fun _ => nofun
    prompt := fun hping _ _ => by
      cases pings with
      | none => exact absurd hsupervisor (h.pings hping)
      | some loop =>
        obtain ⟨hpatient, ⟨t, ht⟩, hahead⟩ := h.patient loop hsupervisor
        exact hpatient.le hahead ht }

/-- The driver takes a step. -/
theorem Inv.driven {s : State} {driver : Driver} {connWindow streamWindow : ℕ}
    (h : Inv env cfg keepalive s) (hlive : s.driver.isLive = true)
    (hwindows : s.raise ≠ .sent →
      connWindow = ctrlConnWindow ∧ streamWindow = ctrlStreamWindow ∧
        driver ≠ .serving ∧ ∀ attempt next, driver ≠ .raising attempt next) :
    Inv env cfg keepalive
      { s with driver := driver, connWindow := connWindow, streamWindow := streamWindow } :=
  { h with
    windows := hwindows
    ended := fun hended => by
      rcases h.ended hended with hdriver | haborted
      · rw [hdriver] at hlive
        cases hlive
      · exact .inr haborted
    released := fun hthrough => by
      rcases h.released hthrough with hdriver | hdriver | haborted
      · rw [hdriver] at hlive
        cases hlive
      · rw [hdriver] at hlive
        cases hlive
      · exact .inr (.inr haborted) }

theorem Inv.passed {s : State} {d : ℕ} (h : Inv env cfg keepalive s)
    (hidle : s.runnable = false) (htimers : ∀ t ∈ s.timers, s.now + d ≤ t) :
    Inv env cfg keepalive { s with now := s.now + d } :=
  { h with
    patient := fun pings hpings => by
      obtain ⟨hpatient, htimer, -⟩ := h.patient pings hpings
      refine ⟨hpatient, htimer, fun t ht => htimers t (List.mem_append_left _ ?_)⟩
      simp only at hpings
      rw [hpings]
      exact Option.mem_toList.2 ht
    prompt := fun _ hended hthrough => by
      simp only at hended hthrough
      simp [State.runnable, hended, hthrough] at hidle }

theorem Inv.left {s : State} (h : Inv env cfg keepalive s) :
    Inv env cfg keepalive
      { s with
        through := true
        aborted := s.aborted || s.driver ≠ .absent
        raise := if s.raise = .held then .dropped else s.raise } :=
  { h with
    windows := fun hraise => h.windows fun hsent => hraise (by simp [hsent])
    complete := fun hraise => h.complete (by
      by_cases hheld : s.raise = .held
      · simp [hheld] at hraise
      · simpa [hheld] using hraise)
    ended := fun hended => (h.ended hended).imp_right fun haborted => by simp [haborted]
    released := fun _ => by
      by_cases hdriver : s.driver = .absent
      · exact .inl hdriver
      · exact .inr (.inr (by simp [hdriver]))
    prompt := fun _ _ => nofun }

theorem Inv.step {s t : State} {e : Event} (h : Inv env cfg keepalive s)
    (hstep : step env cfg keepalive s e = some t) : Inv env cfg keepalive t := by
  cases step_cases hstep with
  | passed hidle htimers => exact h.passed hidle htimers
  | @input token i c op t hthrough hclosed hmove hhandled =>
    cases hhandled with
    | opened hpc hpc' =>
      have h' := h.moved hmove hclosed (by rw [hpc']; exact nofun) (by rw [hpc']; exact nofun)
      refine { h' with windows := ?_, ended := ?_, released := ?_ }
      · intro hraise
        obtain ⟨hconn, hstream, -, -⟩ := h.windows hraise
        exact ⟨hconn, hstream, nofun, nofun⟩
      · intro hended
        have hsettled := h.settled (by rw [hended]; exact nofun)
        rw [hpc] at hsettled
        cases hsettled
      · intro hr
        rw [hthrough] at hr
        cases hr
    | authenticated hpc' => exact h.authenticated hmove hpc'
    | swept hpc hpc' =>
      have hended := h.ended (h.cleanup (by rw [hpc]; rfl))
      have h' := h.moved hmove hclosed (by rw [hpc']; exact nofun) (by rw [hpc']; exact nofun)
      exact { h' with released := fun _ => .inr hended, prompt := fun _ _ => nofun }
    | moved hclient hcleanup => exact h.moved hmove hclosed hclient hcleanup
  | left => exact h.left
  | driverEnded hlive =>
    refine h.driven hlive fun hraise => ?_
    obtain ⟨hconn, hstream, -, -⟩ := h.windows hraise
    exact ⟨hconn, hstream, nofun, nofun⟩
  | raise hdriver hraise => exact h.driven (by rw [hdriver]; rfl) fun hne => absurd hraise hne
  | keep hdriver =>
    refine h.driven (by rw [hdriver]; rfl) fun hraise => ?_
    obtain ⟨hconn, hstream, -, -⟩ := h.windows hraise
    exact ⟨hconn, hstream, nofun, nofun⟩
  | raised hdriver | retry hdriver =>
    refine h.driven (by rw [hdriver]; rfl) fun hraise => ?_
    obtain ⟨-, -, -, hraising⟩ := h.windows hraise
    exact absurd hdriver (hraising _ _)
  | pinged hsupervisor hping htimer => exact h.pinged hsupervisor hping htimer
  | silent hsupervisor => exact h.unsupervised hsupervisor (.inr rfl) fun _ => rfl
  | joined hsupervisor hdriver => exact h.unsupervised hsupervisor (.inl hdriver) id

theorem inv_of_runs {schedule : List Event} {start : ℕ} {pingPong : Bool} {s : State}
    (h : runs (step env cfg keepalive) (init start pingPong) schedule = some s) :
    Inv env cfg keepalive s :=
  runs_invariant (fun _ _ _ hs ht => Inv.step hs ht) h (inv_init start pingPong)

theorem pingPong_of_runs {schedule : List Event} {start : ℕ} {pingPong : Bool} {s : State}
    (h : runs (step env cfg keepalive) (init start pingPong) schedule = some s) :
    s.pingPong = pingPong := by
  refine runs_invariant (P := fun s => s.pingPong = pingPong) (fun s e t hs ht => ?_) h rfl
  cases step_cases ht with
  | input _ _ _ hhandled => cases hhandled <;> exact hs
  | _ => exact hs

/-! ### Results -/

/-- **The driver does as the handler says.** The flow-control windows of a connection are raised
only if its peer passed every check; a handler that gave up, or whose registration is being or was
undone, leaves no driver behind that is not at its end or told to stop; and a driver that was told
to stop does. -/
theorem driver_released (env : Env) (cfg : Config) (keepalive : H2KeepAlive) (start : ℕ)
    (pingPong : Bool) (schedule : List Event) (s : State)
    (h : runs (step env cfg keepalive) (init start pingPong) schedule = some s) :
    (s.connWindow ≠ ctrlConnWindow ∨ s.streamWindow ≠ ctrlStreamWindow →
      ∃ id domain, Admitted env cfg s.conn.seen id domain) ∧
    (s.through = true ∨ s.conn.pc.isCleanup = true →
      s.driver = .absent ∨ s.driver = .ended ∨ s.aborted = true) ∧
    (s.aborted = true → s.driver.isLive = true →
      ∃ t, step env cfg keepalive s .reap = some t ∧ t.driver = .ended) := by
  have hinv := inv_of_runs h
  refine ⟨fun hraised => ?_, fun hdone => ?_, fun haborted hlive => ?_⟩
  · have hsent : s.raise = .sent := by
      by_contra hraise
      obtain ⟨hconn, hstream, -, -⟩ := hinv.windows hraise
      exact hraised.elim (absurd hconn) (absurd hstream)
    obtain ⟨-, id, hcomplete⟩ := hinv.complete hsent
    exact ⟨id, hcomplete.admitted⟩
  · rcases hdone with hthrough | hcleanup
    · exact hinv.released hthrough
    · exact .inr (hinv.ended (hinv.cleanup hcleanup))
  · exact ⟨_, by rw [step, haborted, hlive]; rfl, rfl⟩

/-- A peer that registers and is never heard of again, up to the end of its time. -/
def fallsSilent : List Event :=
  [.input 0 (.peerCerts (some [sampleCert])), .input 0 .opened,
    .input 0 (.response [some (utf8 Sample.domain)]), .input 0 (.response [some Sample.signature]),
    .input 0 (.txtAnswer (some sampleTxt)), .signal, .attempt false, .pass 50000000, .attempt true,
    .input 0 (.response []), .input 0 (.drew 7), .pass 9950000000, .ping .wake, .pass 20000000000]

theorem driver_released_fallsSilent :
    ∃ s, runs (step sampleEnv sampleConfig .default) (init 0 true)
        (fallsSilent ++ [.ping .timeout, .reap, .input 0 .closed, .input 0 .run, .input 0 .run]) =
          some s ∧
      s.through = true ∧ s.streamWindow = h2DataStreamWindow ∧
      (s.driver = .absent ∨ s.driver = .ended ∨ s.aborted = true) ∧
      ∃ id domain, Admitted sampleEnv sampleConfig s.conn.seen id domain := by
  have hrun : (runs (step sampleEnv sampleConfig .default) (init 0 true)
      (fallsSilent ++ [.ping .timeout, .reap, .input 0 .closed, .input 0 .run, .input 0 .run])).map
      (fun s => (s.through, s.streamWindow)) = some (true, h2DataStreamWindow) := by
    decide +kernel
  obtain ⟨s, hs, hstate⟩ := Option.map_eq_some_iff.1 hrun
  obtain ⟨hthrough, hwindow⟩ := Prod.mk.inj hstate
  obtain ⟨hraised, hreleased, -⟩ :=
    driver_released sampleEnv sampleConfig .default 0 true _ s hs
  exact ⟨s, hs, hthrough, hwindow, hreleased (.inl hthrough),
    hraised (.inr (by rw [hwindow]; decide))⟩

/-- The steps of the tasks themselves: at a timer of theirs, after another task of theirs, or
without any wait.  What the peer does, an answer, a pong or the end of the connection, is not among
them; a request fails by itself once there is no driver for it. -/
def State.own (s : State) : Event → Bool
  | .leave | .reap | .signal | .attempt _ | .giveUp | .joined => true
  | .ping .wake | .ping .timeout => true
  | .input _ .run | .input _ (.drew _) | .input _ .closed => true
  | .input _ .lost => !s.driver.isLive
  | _ => false

/-- A task can take a step of its own. -/
def CanStep (env : Env) (cfg : Config) (keepalive : H2KeepAlive) (s : State) : Prop :=
  ∃ e, s.own e = true ∧ (step env cfg keepalive s e).isSome = true

/-- A handler that serves a client has a step that needs nothing of the peer. -/
theorem exists_input_of_client (env : Env) (cfg : Config) {s : State}
    (h : s.conn.pc.client?.isSome = true) (hlive : s.driver.isLive = false) :
    ∃ i, s.own (.input 0 i) = true ∧ (s.conn.step env cfg 0 i).isSome = true := by
  unfold Conn.step Conn.authStep Conn.serveStep Conn.read
  cases hpc : s.conn.pc with
  | readKeyAuth | sendAck | waitDone => exact ⟨.lost, by simp [State.own, hlive], rfl⟩
  | insertPending | removePending | unlink | sweep => exact ⟨.run, rfl, rfl⟩
  | register => exact ⟨.drew 0, rfl, rfl⟩
  | registered => exact ⟨.closed, rfl, rfl⟩
  | handshake | openControl | readDomain | readSig | lookupTxt | gone =>
    rw [hpc] at h
    cases h

/-- What is left to do once the supervisor has ended: the driver stops, and the handler runs on. -/
theorem Inv.canStep_of_ended {s : State} (h : Inv env cfg keepalive s)
    (hended : s.supervisor = .ended) (hthrough : s.through = false) :
    CanStep env cfg keepalive s := by
  have hsettled := h.settled (by rw [hended]; exact nofun)
  cases hlive : s.driver.isLive with
  | true =>
    have haborted : s.aborted = true := by
      rcases h.ended hended with hdriver | haborted
      · rw [hdriver] at hlive
        cases hlive
      · exact haborted
    exact ⟨.reap, rfl, by simp [H2Tasks.step, haborted, hlive]⟩
  | false =>
    cases hgone : s.conn.pc.isGone with
    | true => exact ⟨.leave, rfl, by simp [H2Tasks.step, hgone, hthrough]⟩
    | false =>
      have hclient : s.conn.pc.client?.isSome = true := by
        cases hpc : s.conn.pc with
        | gone =>
          rw [hpc] at hgone
          cases hgone
        | _ =>
          rw [hpc] at hsettled
          exact hsettled
      obtain ⟨i, hown, hi⟩ := exists_input_of_client env cfg hclient hlive
      refine ⟨.input 0 i, hown, ?_⟩
      rw [H2Tasks.step, if_neg (by simp [hthrough, hended]), Option.isSome_map]
      exact hi

theorem Inv.canStep_of_runnable {s : State} (h : Inv env cfg keepalive s)
    (hrunnable : s.runnable = true) : CanStep env cfg keepalive s := by
  simp only [State.runnable, Bool.or_eq_true, Bool.and_eq_true, decide_eq_true_eq,
    Bool.not_eq_true'] at hrunnable
  obtain ((⟨haborted, hlive⟩ | ⟨hended, hthrough⟩) | ⟨⟨habsent, hended⟩, hdriver⟩) |
    ⟨hdriver, hraise⟩ := hrunnable
  · exact ⟨.reap, rfl, by simp [H2Tasks.step, haborted, hlive]⟩
  · exact h.canStep_of_ended hended hthrough
  · cases hsupervisor : s.supervisor with
    | absent => exact absurd hsupervisor habsent
    | ended => exact absurd hsupervisor hended
    | watching pings => exact ⟨.joined, rfl, by simp [H2Tasks.step, hsupervisor, hdriver]⟩
  · cases hr : s.raise with
    | held => exact absurd hr hraise
    | sent | dropped => exact ⟨.signal, rfl, by simp [H2Tasks.step, hdriver, hr]⟩

/-- A timer that has run out is served. -/
theorem canStep_of_timer {s : State} {t : ℕ} (ht : t ∈ s.timers) (hdue : t ≤ s.now) :
    CanStep env cfg keepalive s := by
  rcases List.mem_append.1 ht with hping | hraise
  · split at hping
    · rename_i pings hsupervisor
      have htimer := Option.mem_toList.1 hping
      cases pings with
      | sleeping wakeAt =>
        cases htimer
        exact ⟨.ping .wake, rfl, by simp [step, hsupervisor, State.pinged, PingLoop.step, hdue]⟩
      | pinging deadline =>
        cases htimer
        exact ⟨.ping .timeout, rfl, by simp [step, hsupervisor, State.pinged, PingLoop.step, hdue]⟩
      | returned cause => cases htimer
    · cases hping
  · split at hraise
    · rename_i attempt next hdriver
      cases List.mem_singleton.1 hraise
      by_cases hlast : attempt < windowRaiseAttempts
      · exact ⟨.attempt true, rfl, by simp [step, hdriver, hdue, hlast]⟩
      · exact ⟨.giveUp, rfl, by simp [step, hdriver, hdue, Nat.le_of_not_lt hlast]⟩
    · cases hraise

/-- The tasks are never stuck: if the clock may not go on, a task can. -/
theorem Inv.not_stuck {s : State} (h : Inv env cfg keepalive s) :
    (H2Tasks.step env cfg keepalive s (.pass 1)).isSome = true ∨ CanStep env cfg keepalive s := by
  cases hrunnable : s.runnable with
  | true => exact .inr (h.canStep_of_runnable hrunnable)
  | false =>
    cases htimers : s.timers.all (s.now + 1 ≤ ·) with
    | true => exact .inl (by rw [H2Tasks.step, State.mayPass, hrunnable, htimers]; rfl)
    | false =>
      obtain ⟨t, ht, hdue⟩ := List.all_eq_false.1 htimers
      exact .inr (canStep_of_timer ht (by simpa [Nat.lt_succ_iff] using hdue))

/-- **A dead peer is noticed in time.** Of a connection that is being served, waiting for its
challenge or registered, the peer was heard of within the interval and the timeout of the
keep-alive.  A pong that is overdue is not waited for: the supervisor ends and tells the driver to
stop.  And whatever the clock waits for, a task does by itself. -/
theorem peer_heard (env : Env) (cfg : Config) (keepalive : H2KeepAlive) (start : ℕ)
    (schedule : List Event) (s : State)
    (h : runs (step env cfg keepalive) (init start true) schedule = some s) :
    (s.conn.pc.client?.isSome = true → s.through = false →
      s.now ≤ s.heard + keepalive.interval.nanos + keepalive.timeout.nanos) ∧
    (∀ deadline, s.supervisor = .watching (some (.pinging deadline)) → deadline ≤ s.now →
      step env cfg keepalive s (.ping .timeout) =
        some { s with supervisor := .ended, aborted := true }) ∧
    ((step env cfg keepalive s (.pass 1)).isSome = true ∨ CanStep env cfg keepalive s) := by
  have hinv := inv_of_runs h
  have hping := pingPong_of_runs h
  refine ⟨fun hclient hthrough => ?_, fun deadline hpinging hdue => ?_, hinv.not_stuck⟩
  case refine_2 => simp [step, hpinging, State.pinged, PingLoop.step, hdue]
  rw [Nat.add_assoc]
  cases hsupervisor : s.supervisor with
  | absent => exact absurd hsupervisor (hinv.supervised hclient)
  | ended => exact hinv.prompt hping hsupervisor hthrough
  | watching pings =>
    cases pings with
    | none => exact absurd hsupervisor (hinv.pings hping)
    | some loop =>
      obtain ⟨hpatient, ⟨t, ht⟩, hahead⟩ := hinv.patient loop hsupervisor
      exact hpatient.le hahead ht

theorem peer_heard_fallsSilent :
    ∃ s, runs (step sampleEnv sampleConfig .default) (init 0 true) fallsSilent = some s ∧
      s.conn.pc = .registered Sample.clientId 7 ∧ s.now = 30000000000 ∧
      s.now ≤ s.heard + H2KeepAlive.default.interval.nanos + H2KeepAlive.default.timeout.nanos := by
  have hrun : (runs (step sampleEnv sampleConfig .default) (init 0 true) fallsSilent).map
      (fun s => (s.conn.pc, s.now, s.through)) =
        some (.registered Sample.clientId 7, 30000000000, false) := by decide +kernel
  obtain ⟨s, hs, hstate⟩ := Option.map_eq_some_iff.1 hrun
  obtain ⟨hpc, hrest⟩ := Prod.mk.inj hstate
  obtain ⟨hnow, hthrough⟩ := Prod.mk.inj hrest
  have hheard := (peer_heard sampleEnv sampleConfig .default 0 fallsSilent s hs).1
  exact ⟨s, hs, hpc, hnow, hheard (by rw [hpc]; rfl) hthrough⟩

end H2Tasks

end QuicTunnel.Relay
