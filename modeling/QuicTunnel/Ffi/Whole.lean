import QuicTunnel.Base.SideBySide
import QuicTunnel.Client.ConnectionRun
import QuicTunnel.Ffi.Closing

/-!
# The whole client

The three machines of a client together: the connection tasks (`connection_run` with its sessions
and pools), `TunnelClient::run` of the tunnel, which spawns and joins them, and the event stream of
the foreign client, which drives the tunnel task and delivers what all of them enqueue.

* every event goes into one unbounded channel: those of a session from its own task, `GaveUp` from
  the loop that joins it, certificates from the provisioner;
* `stop()` of the foreign client sets its flag and then calls `stop()` of the tunnel, which every
  session reads through one `watch` channel; other threads may run between the two;
* the foreign client holds a sender for as long as `run()` borrows it, so the last one is not
  dropped before `run()` is over;
* a `JoinSet` that is dropped aborts its tasks at their next await, and a task that panics takes its
  pool along.  Here such tasks are let run on, which adds schedules and takes none away.

A step of the whole is a step of one part, with the events it leaves put into the channel; so each
part makes a run of its own (`Parts`).
-/

namespace QuicTunnel

/-- The actions of `TunnelClient::run` itself. -/
def Tunnel.Action.ofRun : Tunnel.Action → Bool
  | .stop | .ends .. => false
  | _ => true

/-- The actions of the members of a pool, which are tasks of their own. -/
def ConnectionRun.Action.ofMember : ConnectionRun.Action → Bool
  | .go (.member ..) | .go (.straggler ..) => true
  | _ => false

namespace Ffi

/-- `format_error_chain`: the error and its causes. -/
def formatErrorChain : List String → String
  | [] => ""
  | first :: causes => causes.foldl (fun out cause => out ++ ": " ++ cause) first

namespace Whole

open Transition

/-! ### The model -/

structure Config where
  tunnel : Tunnel.Config
  policy : ReconnectPolicy
  poolSize : ℕ
  forceH2 : Bool

/-- What the task of a connection is started with. -/
def Config.session (cfg : Config) (owner : String × String) : Session.Config :=
  ⟨owner.1, owner.2, cfg.policy, cfg.poolSize, cfg.forceH2⟩

structure State where
  tunnel : Tunnel.State
  /-- The connection tasks, numbered as in `tunnel`. -/
  sessions : List ConnectionRun.State
  stream : Ffi.State

def init (cfg : Config) : State := ⟨Tunnel.init cfg.tunnel, [], Ffi.init⟩

inductive Action
  /-- The foreign side, `run()` or the tail makes a step; its `stop` sets the flag. -/
  | stream (a : Ffi.Action)
  /-- `stop()` goes on to the tunnel. -/
  | signal
  /-- `TunnelClient::run` of the tunnel makes a step. -/
  | tunnel (a : Tunnel.Action)
  /-- The task of connection `k`, or a member of one of its pools, makes a step. -/
  | session (k : ℕ) (a : ConnectionRun.Action)
  /-- The task of connection `k` panics. -/
  | panics (k : ℕ) (e : String)
  /-- The provisioner reports a certificate. -/
  | cert (pem : String)
  /-- The tunnel task ends with what `TunnelClient::run` returned. -/
  | returns
  /-- The tunnel task panics. -/
  | tunnelPanics (text : String)

/-- The channel takes the events of a step, in order. -/
def send (stream : Ffi.State) (events : List ConnectionEvent) : Option Ffi.State :=
  runs Ffi.step stream (events.map fun e => .emit (.conn e))

/-- How the task of a session that is in this state has ended, if it has. -/
def ending (c : ConnectionRun.State) : Option Tunnel.Ending :=
  match c.phase, c.log.getLast? with
  | .returned, _ => some .ok
  | .gaveUp, some (.gaveUp _ _ e) => some (.error e)
  | _, _ => none

/-- The tunnel after the session of task `k` has made a step to `c`. -/
def afterSession (ids : ℕ → ℕ) (tunnel : Tunnel.State) (k : ℕ) (task : Tunnel.Task)
    (c : ConnectionRun.State) : Option Tunnel.State :=
  match task.ending, ending c with
  | none, some e => Tunnel.step ids tunnel (.ends k e)
  | _, _ => some tunnel

/-- A task that has just been spawned, with the stop flag it reads. -/
def spawned (cfg : Config) (stopped : Bool) (task : Tunnel.Task) : ConnectionRun.State :=
  { ConnectionRun.init (cfg.session task.owner) with stopped := stopped }

/-- What the tunnel task ends with. -/
def outcome : Tunnel.Outcome → Ffi.Outcome
  | .ok => .ok
  | .error message source => .error (formatErrorChain (message :: source.toList))

/-- One step. -/
def step (cfg : Config) (ids : ℕ → ℕ) (s : State) : Action → Option State
  | .stream a =>
    if a.foreign then (Ffi.step s.stream a).map fun stream => { s with stream := stream } else none
  | .signal =>
    if s.stream.stopped then
      some { s with
        tunnel := { s.tunnel with stop := s.tunnel.stop.send true }
        sessions := s.sessions.map fun c => { c with stopped := true } }
    else none
  | .tunnel a =>
    if a.ofRun = true ∧ s.stream.tunnel = .running then
      (Tunnel.step ids s.tunnel a).bind fun tunnel =>
        (send s.stream (tunnel.log.drop s.tunnel.log.length)).map fun stream =>
          { tunnel := tunnel
            sessions := s.sessions ++
              (tunnel.tasks.drop s.tunnel.tasks.length).map (spawned cfg s.tunnel.stop.value)
            stream := stream }
    else none
  | .session k a =>
    s.tunnel.tasks[k]?.bind fun task => s.sessions[k]?.bind fun c =>
      if a = .go .stop ∨ task.ending ≠ none ∧ a.ofMember = false then none
      else
        (ConnectionRun.step (cfg.session task.owner) c a).bind fun c' =>
          (afterSession ids s.tunnel k task c').bind fun tunnel =>
            -- the `GaveUp` of this log is the one the loop reports at the join
            (send s.stream ((c'.log.drop c.log.length).filter fun e => !e.isGaveUp)).map
              fun stream => ⟨tunnel, s.sessions.set k c', stream⟩
  | .panics k e =>
    (Tunnel.step ids s.tunnel (.ends k (.panicked e))).map fun tunnel => { s with tunnel := tunnel }
  | .cert pem =>
    (Ffi.step s.stream (.emit (.cert pem))).map fun stream => { s with stream := stream }
  | .returns =>
    match s.tunnel.pc with
    | .returned o =>
      (Ffi.step s.stream (.tunnelEnds (outcome o))).map fun stream => { s with stream := stream }
    | _ => none
  | .tunnelPanics text =>
    (Ffi.step s.stream (.tunnelEnds (.panicked text))).map fun stream => { s with stream := stream }

/-! ### What a step can do -/

/-- A step of a part, with what it puts into the channel. -/
inductive Step (cfg : Config) (ids : ℕ → ℕ) (s : State) : Action → State → Prop
  | stream {a : Ffi.Action} {u : Ffi.State} (hforeign : a.foreign = true)
    (h : Ffi.step s.stream a = some u) : Step cfg ids s (.stream a) { s with stream := u }
  | signal (h : s.stream.stopped = true) :
    Step cfg ids s .signal { s with
      tunnel := { s.tunnel with stop := s.tunnel.stop.send true }
      sessions := s.sessions.map fun c => { c with stopped := true } }
  | tunnel {a : Tunnel.Action} {v : Tunnel.State} {u : Ffi.State} (hown : a.ofRun = true)
    (hrunning : s.stream.tunnel = .running) (h : Tunnel.step ids s.tunnel a = some v)
    (hsend : send s.stream (v.log.drop s.tunnel.log.length) = some u) :
    Step cfg ids s (.tunnel a) ⟨v, s.sessions ++
      (v.tasks.drop s.tunnel.tasks.length).map (spawned cfg s.tunnel.stop.value), u⟩
  | session {k : ℕ} {a : ConnectionRun.Action} {task : Tunnel.Task} {c c' : ConnectionRun.State}
    {v : Tunnel.State} {u : Ffi.State} (hne : a ≠ .go .stop)
    (htask : s.tunnel.tasks[k]? = some task) (hc : s.sessions[k]? = some c)
    (h : ConnectionRun.step (cfg.session task.owner) c a = some c')
    (hv : afterSession ids s.tunnel k task c' = some v)
    (hsend : send s.stream ((c'.log.drop c.log.length).filter fun e => !e.isGaveUp) = some u) :
    Step cfg ids s (.session k a) ⟨v, s.sessions.set k c', u⟩
  | panics {k : ℕ} {e : String} {v : Tunnel.State}
    (h : Tunnel.step ids s.tunnel (.ends k (.panicked e)) = some v) :
    Step cfg ids s (.panics k e) { s with tunnel := v }
  | cert {pem : String} {u : Ffi.State} (h : Ffi.step s.stream (.emit (.cert pem)) = some u) :
    Step cfg ids s (.cert pem) { s with stream := u }
  | returns {o : Tunnel.Outcome} {u : Ffi.State} (hpc : s.tunnel.pc = .returned o)
    (h : Ffi.step s.stream (.tunnelEnds (outcome o)) = some u) :
    Step cfg ids s .returns { s with stream := u }
  | tunnelPanics {text : String} {u : Ffi.State}
    (h : Ffi.step s.stream (.tunnelEnds (.panicked text)) = some u) :
    Step cfg ids s (.tunnelPanics text) { s with stream := u }

section Steps

variable {cfg : Config} {ids : ℕ → ℕ} {s t : State} {a : Action}

theorem step_cases (hstep : step cfg ids s a = some t) : Step cfg ids s a t := by
  cases a with
  | stream a =>
    simp only [step] at hstep
    split_ifs at hstep with hforeign
    obtain ⟨u, hu, rfl⟩ := Option.map_eq_some_iff.1 hstep
    exact .stream hforeign hu
  | signal =>
    simp only [step] at hstep
    split_ifs at hstep with hstopped
    cases hstep
    exact .signal hstopped
  | tunnel a =>
    simp only [step] at hstep
    split_ifs at hstep with hc
    obtain ⟨v, hv, hstep⟩ := Option.bind_eq_some_iff.1 hstep
    obtain ⟨u, hu, rfl⟩ := Option.map_eq_some_iff.1 hstep
    exact .tunnel hc.1 hc.2 hv hu
  | session k a =>
    obtain ⟨task, htask, hstep⟩ := Option.bind_eq_some_iff.1 hstep
    obtain ⟨c, hc, hstep⟩ := Option.bind_eq_some_iff.1 hstep
    split_ifs at hstep with hrefused
    obtain ⟨c', hc', hstep⟩ := Option.bind_eq_some_iff.1 hstep
    obtain ⟨v, hv, hstep⟩ := Option.bind_eq_some_iff.1 hstep
    obtain ⟨u, hu, rfl⟩ := Option.map_eq_some_iff.1 hstep
    exact .session (fun ha => hrefused (.inl ha)) htask hc hc' hv hu
  | panics k e =>
    simp only [step] at hstep
    obtain ⟨v, hv, rfl⟩ := Option.map_eq_some_iff.1 hstep
    exact .panics hv
  | cert pem =>
    simp only [step] at hstep
    obtain ⟨u, hu, rfl⟩ := Option.map_eq_some_iff.1 hstep
    exact .cert hu
  | returns =>
    simp only [step] at hstep
    split at hstep
    · obtain ⟨u, hu, rfl⟩ := Option.map_eq_some_iff.1 hstep
      exact .returns ‹_› hu
    · cases hstep
  | tunnelPanics text =>
    simp only [step] at hstep
    obtain ⟨u, hu, rfl⟩ := Option.map_eq_some_iff.1 hstep
    exact .tunnelPanics hu

/-- The channel takes an item as long as the receiver is held. -/
theorem emit_taken {s u : Ffi.State} {x : Inner} (h : Ffi.step s (.emit x) = some u) :
    s.tunnel ≠ .none ∧ ∃ q, u = { s with
      queue := q, enqueued := s.enqueued ++ if s.receiver then [x] else [] } := by
  refine ⟨(emit_spec h).1, ?_⟩
  simp only [Ffi.step] at h
  split_ifs at h with hoff hr <;> cases h
  · exact ⟨_, by rw [if_pos hr]⟩
  · exact ⟨s.queue, by rw [if_neg hr, List.append_nil]⟩

theorem send_taken {s u : Ffi.State} {events : List ConnectionEvent}
    (h : send s events = some u) :
    (events = [] ∨ s.tunnel ≠ .none) ∧ ∃ q, u = { s with
      queue := q, enqueued := s.enqueued ++ if s.receiver then events.map .conn else [] } := by
  induction events generalizing s with
  | nil =>
    cases h
    exact ⟨.inl rfl, u.queue, by simp⟩
  | cons e events ih =>
    obtain ⟨v, hv, h⟩ := runs_cons_eq_some h
    obtain ⟨hne, q, rfl⟩ := emit_taken hv
    obtain ⟨-, q', rfl⟩ := ih h
    refine ⟨.inr hne, q', ?_⟩
    cases s.receiver <;> simp

/-- A session's step leaves the tunnel alone, or ends its task. -/
theorem afterSession_cases {k : ℕ} {task : Tunnel.Task} {c : ConnectionRun.State}
    {v : Tunnel.State}
    (h : afterSession ids s.tunnel k task c = some v) :
    v = s.tunnel ∨ ∃ e, e ≠ .cancelled ∧ Tunnel.step ids s.tunnel (.ends k e) = some v := by
  unfold afterSession at h
  split at h
  · rename_i e _ hending
    refine .inr ⟨e, ?_, h⟩
    unfold ending at hending
    split at hending <;> cases hending <;> nofun
  · exact .inl (Option.some.inj h).symm

end Steps

/-! ### Every part makes a run of its own -/

/-- The part of the invariant that each machine brings along. -/
structure Parts (cfg : Config) (ids : ℕ → ℕ) (s : State) : Prop where
  tunnel : Tunnel.Inv cfg.tunnel ids s.tunnel
  exhausted : Tunnel.Exhausted s.tunnel
  uncancelled : ∀ task ∈ s.tunnel.tasks, task.ending ≠ some .cancelled
  stream : Discipline s.stream
  /-- Every session reads the flag of the tunnel. -/
  flags : ∀ c ∈ s.sessions, c.stopped = s.tunnel.stop.value
  sessions : List.Forall₂ (fun owner c =>
      Reach (ConnectionRun.step (cfg.session owner)) (ConnectionRun.init (cfg.session owner)) c)
    (s.tunnel.tasks.map Tunnel.Task.owner) s.sessions

section Parts

variable {cfg : Config} {ids : ℕ → ℕ} {s t : State} {a : Action}

theorem parts_init (cfg : Config) (ids : ℕ → ℕ) : Parts cfg ids (init cfg) where
  tunnel := Tunnel.inv_init cfg.tunnel ids
  exhausted := Tunnel.exhausted_init cfg.tunnel
  uncancelled := nofun
  stream := discipline_init
  flags _ h := (by cases h)
  sessions := .nil

/-- What a step of the tunnel keeps. -/
structure TunnelPart (cfg : Config) (ids : ℕ → ℕ) (v : Tunnel.State) : Prop where
  inv : Tunnel.Inv cfg.tunnel ids v
  exhausted : Tunnel.Exhausted v
  uncancelled : ∀ task ∈ v.tasks, task.ending ≠ some .cancelled

theorem Parts.tunnelStep (h : Parts cfg ids s) (hids : ids.Injective) {a : Tunnel.Action}
    {v : Tunnel.State} (ha : ∀ k, a ≠ .ends k .cancelled)
    (hv : Tunnel.step ids s.tunnel a = some v) : TunnelPart cfg ids v := by
  refine ⟨h.tunnel.step hids hv, (Tunnel.step_spec hv).exhausted h.exhausted, fun task htask => ?_⟩
  rcases (Tunnel.step_frame hv).2 task htask with hold | hnone | ⟨k, ending, rfl, hending⟩
  · exact h.uncancelled task hold
  · rw [hnone]
    nofun
  · rw [hending]
    exact fun heq => ha k (by rw [Option.some.inj heq])

/-- The end of a task leaves the owners alone. -/
theorem ends_owners {v w : Tunnel.State} {k : ℕ} {e : Tunnel.Ending}
    (h : Tunnel.step ids v (.ends k e) = some w) :
    ∃ tasks, w = { v with tasks := tasks } ∧
      tasks.map Tunnel.Task.owner = v.tasks.map Tunnel.Task.owner := by
  obtain ⟨task, htask, hstep⟩ := Option.bind_eq_some_iff.1 h
  split_ifs at hstep
  cases hstep
  refine ⟨_, rfl, ?_⟩
  rw [List.map_set]
  exact List.set_of_getElem? (by rw [List.getElem?_map, htask]; rfl)

theorem afterSession_owners {k : ℕ} {task : Tunnel.Task} {c : ConnectionRun.State}
    {v : Tunnel.State}
    (h : afterSession ids s.tunnel k task c = some v) :
    ∃ tasks, v = { s.tunnel with tasks := tasks } ∧
      tasks.map Tunnel.Task.owner = s.tunnel.tasks.map Tunnel.Task.owner := by
  rcases afterSession_cases h with rfl | ⟨e, -, he⟩
  · exact ⟨_, rfl, rfl⟩
  · exact ends_owners he

/-- The owners after a step of the tunnel: those of the tasks it spawned come last. -/
theorem tunnel_owners {v w : Tunnel.State} {a : Tunnel.Action}
    (h : Tunnel.step ids v a = some w) :
    w.tasks.map Tunnel.Task.owner =
      v.tasks.map Tunnel.Task.owner ++ (w.tasks.drop v.tasks.length).map Tunnel.Task.owner := by
  have hprefix := List.prefix_iff_eq_append.1 (Tunnel.step_spec h).tasks
  rw [List.length_map, ← List.map_drop] at hprefix
  exact hprefix.symm

theorem spawned_reach (cfg : Config) (stopped : Bool) (task : Tunnel.Task) :
    Reach (ConnectionRun.step (cfg.session task.owner))
      (ConnectionRun.init (cfg.session task.owner)) (spawned cfg stopped task) := by
  cases stopped with
  | false => exact Reach.refl _
  | true => exact Reach.single (a := .go .stop) rfl

theorem Parts.step (h : Parts cfg ids s) (hids : ids.Injective) (hstep : Step cfg ids s a t) :
    Parts cfg ids t := by
  cases hstep with
  | stream _ hu => exact { h with stream := h.stream.step hu }
  | signal =>
    obtain ⟨hinv, hexhausted, huncancelled⟩ :=
      h.tunnelStep hids (a := .stop) nofun (v := { s.tunnel with stop := _ }) rfl
    refine ⟨hinv, hexhausted, huncancelled, h.stream, fun c hc => ?_, ?_⟩
    · obtain ⟨c₀, -, rfl⟩ := List.mem_map.1 hc
      rfl
    · exact List.forall₂_map_right_iff.2
        (h.sessions.imp fun _ _ hc => hc.tail (a := .go .stop) rfl)
  | @tunnel a v u hown _ hv hsend =>
    have hne : ∀ k, a ≠ .ends k .cancelled := by
      rintro k rfl
      cases hown
    have hstop : v.stop = s.tunnel.stop := by
      rcases (Tunnel.step_frame hv).1 with rfl | hsame
      · cases hown
      · exact hsame
    obtain ⟨hinv, hexhausted, huncancelled⟩ := h.tunnelStep hids hne hv
    refine ⟨hinv, hexhausted, huncancelled,
      runs_invariant (fun _ _ _ hd hstep => hd.step hstep) hsend h.stream, fun c hc => ?_, ?_⟩
    · show c.stopped = v.stop.value
      rw [hstop]
      rcases List.mem_append.1 hc with hc | hc
      · exact h.flags c hc
      · obtain ⟨task, -, rfl⟩ := List.mem_map.1 hc
        rfl
    · show List.Forall₂ _ (v.tasks.map Tunnel.Task.owner) _
      rw [tunnel_owners hv]
      refine List.rel_append h.sessions
        (List.forall₂_map_left_iff.2 (List.forall₂_map_right_iff.2 ?_))
      exact List.forall₂_same.2 fun task _ => spawned_reach cfg _ task
  | @session k a task c c' v u hne htask hc hc' hv hsend =>
    have hpart : TunnelPart cfg ids v := by
      rcases afterSession_cases hv with rfl | ⟨e, hne, he⟩
      · exact ⟨h.tunnel, h.exhausted, h.uncancelled⟩
      · exact h.tunnelStep hids (fun k' heq => hne (by cases heq; rfl)) he
    obtain ⟨tasks, rfl, howners⟩ := afterSession_owners hv
    refine ⟨hpart.inv, hpart.exhausted, hpart.uncancelled,
      runs_invariant (fun _ _ _ hd hstep => hd.step hstep) hsend h.stream, fun d hd => ?_, ?_⟩
    · rcases List.mem_or_eq_of_mem_set hd with hd | rfl
      · exact h.flags d hd
      · rw [ConnectionRun.stopped_eq_of_step hne hc']
        exact h.flags _ (List.mem_of_getElem? hc)
    · show List.Forall₂ _ (tasks.map Tunnel.Task.owner) _
      have howner : (s.tunnel.tasks.map Tunnel.Task.owner)[k]? = some task.owner := by
        rw [List.getElem?_map, htask]
        rfl
      rw [howners]
      exact h.sessions.set_right howner ((h.sessions.rel_of_getElem? howner hc).tail hc')
  | panics hv =>
    obtain ⟨hinv, hexhausted, huncancelled⟩ := h.tunnelStep hids (fun k heq => by cases heq) hv
    obtain ⟨tasks, rfl, howners⟩ := ends_owners hv
    exact ⟨hinv, hexhausted, huncancelled, h.stream, h.flags, howners ▸ h.sessions⟩
  | cert hu => exact { h with stream := h.stream.step hu }
  | returns _ hu => exact { h with stream := h.stream.step hu }
  | tunnelPanics hu => exact { h with stream := h.stream.step hu }

end Parts

/-! ### The accounts of a stream that is not cancelled -/

/-- The connection event of an item. -/
def event? : Inner → Option ConnectionEvent
  | .conn e => some e
  | .cert _ => none

/-- The `GaveUp`s among the items. -/
def gaveUps (xs : List Inner) : List ConnectionEvent :=
  (xs.filterMap event?).filter ConnectionEvent.isGaveUp

theorem gaveUps_append (xs ys : List Inner) : gaveUps (xs ++ ys) = gaveUps xs ++ gaveUps ys := by
  simp [gaveUps]

theorem filterMap_event?_conn (events : List ConnectionEvent) :
    (events.map Inner.conn).filterMap event? = events := by
  rw [List.filterMap_map]
  exact List.filterMap_some

theorem gaveUps_conn (events : List ConnectionEvent) :
    gaveUps (events.map .conn) = events.filter ConnectionEvent.isGaveUp := by
  rw [gaveUps, filterMap_event?_conn]

/-- The tunnel task ended with what `TunnelClient::run` returned, and by then the channel had taken
every `GaveUp`. -/
def Closed (s : State) (e : TunnelEvent) : Prop :=
  ∃ o, s.tunnel.pc = .returned o ∧ e = (outcome o).event ∧
    gaveUps s.stream.beforeEnd = s.tunnel.log

/-- Where a terminal event comes from. -/
inductive Origin (schedule : List Action) (s : State) (e : TunnelEvent) : Prop
  /-- The client was stopped before `run()`. -/
  | stopped (he : e = .stopped) (h : .stream .stop ∈ schedule)
  /-- There is no runtime. -/
  | refused (cause : String) (he : e = .failed cause)
      (h : .stream (.run (.error cause)) ∈ schedule) (unused : s.stream.tunnel = .none)
  | closed (h : Closed s e)
  | panicked (text : String) (he : e = .failed text) (h : .tunnelPanics text ∈ schedule)

structure Accounts (schedule : List Action) (s : State) : Prop where
  senders : s.stream.senders = true
  receiver : s.stream.receiver = false → s.stream.pc = .returned
  given : gaveUps s.stream.enqueued = s.tunnel.log
  unused : s.stream.tunnel = .none → s.stream.enqueued = []
  stopped : s.stream.stopped = true → .stream .stop ∈ schedule
  stop : s.tunnel.stop.value = true → s.stream.stopped = true
  ended : ∀ o, s.stream.tunnel = .ended o → Origin schedule s o.event
  closing : ∀ e, s.stream.pc.closing = some e → Origin schedule s e
  returned : s.stream.pc = .returned →
    ∃ body e, s.stream.log = body ++ [e] ∧ Origin schedule s e

theorem accounts_init (cfg : Config) : Accounts [] (init cfg) where
  senders := rfl
  receiver := nofun
  given := rfl
  unused _ := rfl
  stopped := nofun
  stop := nofun
  ended := nofun
  closing := nofun
  returned := nofun

section Accounts

variable {cfg : Config} {ids : ℕ → ℕ} {s t : State} {a : Action} {schedule : List Action}
  {e : TunnelEvent}

/-- What the accounts of an end rest on does not change any more. -/
structure Settled (s t : State) : Prop where
  pc : t.tunnel.pc = s.tunnel.pc
  log : t.tunnel.log = s.tunnel.log
  beforeEnd : t.stream.beforeEnd = s.stream.beforeEnd

theorem Closed.settled (h : Closed s e) (hst : Settled s t) : Closed t e := by
  obtain ⟨o, hpc, he, hgave⟩ := h
  exact ⟨o, hst.pc.trans hpc, he, by rw [hst.beforeEnd, hst.log, hgave]⟩

theorem Origin.settled (h : Origin schedule s e) (hst : Settled s t)
    (hunused : s.stream.tunnel = .none → t.stream.tunnel = .none) (a : Action) :
    Origin (schedule ++ [a]) t e := by
  cases h with
  | stopped he h => exact .stopped he (List.mem_append_left _ h)
  | refused cause he h unused => exact .refused cause he (List.mem_append_left _ h) (hunused unused)
  | closed h => exact .closed (h.settled hst)
  | panicked text he h => exact .panicked text he (List.mem_append_left _ h)

/-- Nothing about the end of the stream is decided while the tunnel task runs. -/
theorem Parts.undecided (h : Parts cfg ids s) (hrunning : s.stream.tunnel = .running) :
    s.stream.pc.closing = none ∧ s.stream.pc ≠ .returned := by
  constructor
  · cases hclosing : s.stream.pc.closing with
    | none => rfl
    | some e => exact absurd hrunning (h.stream.joined (Pc.afterJoin_of_closing hclosing))
  · intro hpc
    exact h.stream.joined (by rw [hpc]; rfl) hrunning

/-- A step that puts items into the channel and leaves the rest of the stream alone. -/
theorem Accounts.takes (h : Accounts schedule s) {v : Tunnel.State}
    {sessions : List ConnectionRun.State}
    {q xs : List Inner} (hst : v.pc = s.tunnel.pc) (hlog : v.log = s.tunnel.log)
    (hstop : v.stop = s.tunnel.stop) (hxs : gaveUps xs = [])
    (hused : xs = [] ∨ s.stream.tunnel ≠ .none) (a : Action) :
    Accounts (schedule ++ [a]) ⟨v, sessions, { s.stream with
      queue := q, enqueued := s.stream.enqueued ++ if s.stream.receiver then xs else [] }⟩ := by
  have hsettled : Settled s ⟨v, sessions, { s.stream with
      queue := q, enqueued := s.stream.enqueued ++ if s.stream.receiver then xs else [] }⟩ :=
    ⟨hst, hlog, rfl⟩
  refine ⟨h.senders, h.receiver, ?_, fun hnone => ?_,
    fun hs => List.mem_append_left _ (h.stopped hs), fun hv => h.stop (hstop ▸ hv),
    fun o ho => (h.ended o ho).settled hsettled id a,
    fun e he => (h.closing e he).settled hsettled id a, fun hpc => ?_⟩
  · show gaveUps (_ ++ _) = v.log
    rw [gaveUps_append, h.given, hlog]
    split_ifs
    · rw [hxs, List.append_nil]
    · exact List.append_nil _
  · show _ ++ _ = []
    rw [h.unused hnone, List.nil_append]
    rcases hused with rfl | hne
    · split_ifs <;> rfl
    · exact absurd hnone hne
  · obtain ⟨body, e, hbody, horigin⟩ := h.returned hpc
    exact ⟨body, e, hbody, horigin.settled hsettled id a⟩

/-- A step of the foreign side or of `run()`. -/
theorem Accounts.streamStep (h : Accounts schedule s) (hp : Parts cfg ids s) {a : Ffi.Action}
    {u : Ffi.State} (hforeign : a.foreign = true) (hu : Ffi.step s.stream a = some u)
    (ht : u.pc.inTail = false) :
    Accounts (schedule ++ [.stream a]) { s with stream := u } := by
  obtain ⟨henq, hend, hsenders⟩ := foreign_accepted hforeign hu
  have hsettled : Settled s { s with stream := u } := ⟨rfl, rfl, hend⟩
  have hold : ∀ {x : Action}, x ∈ schedule → x ∈ schedule ++ [.stream a] :=
    fun hx => List.mem_append_left _ hx
  have hgave : gaveUps u.enqueued = s.tunnel.log := by rw [henq]; exact h.given
  have hunused : s.stream.tunnel = .none → u.enqueued = [] := fun hn => by rw [henq, h.unused hn]
  cases foreign_course hp.stream.toControl h.senders hforeign hu ht with
  | same tunnel receiver stopped closing returned log =>
    have hkeep : s.stream.tunnel = .none → u.tunnel = .none := fun hn => tunnel.trans hn
    refine ⟨hsenders.trans h.senders, fun hr => returned.2 (h.receiver (receiver ▸ hr)), hgave,
      fun hn => hunused (tunnel ▸ hn), fun hs => ?_, fun hv => ?_,
      fun o ho => (h.ended o (tunnel ▸ ho)).settled hsettled hkeep _,
      fun e he => (h.closing e (closing ▸ he)).settled hsettled hkeep _, fun hpc => ?_⟩
    · rcases stopped with hsame | ⟨rfl, -⟩
      · exact hold (h.stopped (hsame ▸ hs))
      · exact List.mem_append_right _ (List.mem_singleton.2 rfl)
    · rcases stopped with hsame | ⟨-, hset⟩
      · exact hsame.trans (h.stop hv)
      · exact hset
    · obtain ⟨body, e, hbody, horigin⟩ := h.returned (returned.1 hpc)
      exact ⟨body, e, (log (returned.1 hpc)).trans hbody, horigin.settled hsettled hkeep _⟩
  | refused e tunnel receiver stopped before pc why =>
    refine ⟨hsenders.trans h.senders, fun hr => absurd (h.receiver (receiver ▸ hr)) before, hgave,
      fun _ => hunused tunnel.1, fun hs => hold (h.stopped (stopped ▸ hs)),
      fun hv => stopped.trans (h.stop hv), fun o ho => absurd (tunnel.2.symm.trans ho) nofun,
      fun e' he' => ?_, fun hpc => absurd (pc.symm.trans hpc) nofun⟩
    rw [pc] at he'
    cases he'
    rcases why with ⟨rfl, hstopped⟩ | ⟨cause, rfl, rfl⟩
    · exact .stopped rfl (hold (h.stopped hstopped))
    · exact .refused cause rfl (List.mem_append_right _ (List.mem_singleton.2 rfl)) tunnel.2
  | starts tunnel receiver stopped before pc =>
    refine ⟨hsenders.trans h.senders, fun hr => absurd (h.receiver (receiver ▸ hr)) before, hgave,
      fun hn => absurd (tunnel.2.symm.trans hn) nofun, fun hs => hold (h.stopped (stopped ▸ hs)),
      fun hv => stopped.trans (h.stop hv), fun o ho => absurd (tunnel.2.symm.trans ho) nofun,
      fun e he => ?_, fun hpc => absurd (pc.symm.trans hpc) nofun⟩
    rw [pc] at he
    cases he
  | joins o tunnel receiver stopped before closing pc =>
    refine ⟨hsenders.trans h.senders, fun hr => absurd (h.receiver (receiver ▸ hr)) before, hgave,
      fun hn => absurd (tunnel.2.symm.trans hn) nofun, fun hs => hold (h.stopped (stopped ▸ hs)),
      fun hv => stopped.trans (h.stop hv), fun o ho => absurd (tunnel.2.symm.trans ho) nofun,
      fun e he => ?_, fun hpc => absurd hpc pc⟩
    cases closing.symm.trans he
    exact (h.ended o tunnel.1).settled hsettled (fun hn => absurd (tunnel.1.symm.trans hn) nofun) _
  | ends e tunnel stopped before pc log =>
    have hkeep : s.stream.tunnel = .none → u.tunnel = .none := fun hn => tunnel.trans hn
    refine ⟨hsenders.trans h.senders, fun _ => pc, hgave, fun hn => hunused (tunnel ▸ hn),
      fun hs => hold (h.stopped (stopped ▸ hs)), fun hv => stopped.trans (h.stop hv),
      fun o ho => (h.ended o (tunnel ▸ ho)).settled hsettled hkeep _, fun e' he' => ?_, fun _ => ?_⟩
    · rw [pc] at he'
      cases he'
    · exact ⟨s.stream.log, e, log, (h.closing e before).settled hsettled hkeep _⟩

/-- The loop puts `GaveUp`s into the channel while the tunnel task runs. -/
theorem Accounts.tunnelStep (h : Accounts schedule s) (hp : Parts cfg ids s) {a : Tunnel.Action}
    {v : Tunnel.State} {u : Ffi.State} {sessions : List ConnectionRun.State} (hown : a.ofRun = true)
    (hrunning : s.stream.tunnel = .running) (hv : Tunnel.step ids s.tunnel a = some v)
    (hsend : send s.stream (v.log.drop s.tunnel.log.length) = some u) :
    Accounts (schedule ++ [.tunnel a]) ⟨v, sessions, u⟩ := by
  obtain ⟨-, q, rfl⟩ := send_taken hsend
  obtain ⟨new, hlog, hnew⟩ := (Tunnel.step_spec hv).log
  obtain ⟨hclosing, hpc⟩ := hp.undecided hrunning
  have hreceiver : s.stream.receiver = true := by
    by_contra hr
    exact hpc (h.receiver (Bool.eq_false_of_not_eq_true hr))
  have hstop : v.stop = s.tunnel.stop := by
    rcases (Tunnel.step_frame hv).1 with rfl | hsame
    · cases hown
    · exact hsame
  refine ⟨h.senders, h.receiver, ?_, fun hn => absurd (hrunning.symm.trans hn) nofun,
    fun hs => List.mem_append_left _ (h.stopped hs), fun hval => h.stop (hstop ▸ hval),
    fun o ho => absurd (hrunning.symm.trans ho) nofun,
    fun e he => absurd (hclosing.symm.trans he) nofun, fun hret => absurd hret hpc⟩
  show gaveUps (_ ++ _) = v.log
  rw [if_pos hreceiver, gaveUps_append, h.given, gaveUps_conn, hlog, List.drop_left,
    List.filter_eq_self.2 hnew]

/-- The tunnel task ends. -/
theorem Accounts.tunnelEnds (h : Accounts schedule s) (hp : Parts cfg ids s) {o : Ffi.Outcome}
    {u : Ffi.State} (hu : Ffi.step s.stream (.tunnelEnds o) = some u) {a : Action}
    (horigin : Origin (schedule ++ [a]) { s with stream := u } o.event) :
    Accounts (schedule ++ [a]) { s with stream := u } := by
  obtain ⟨hrunning, rfl⟩ := tunnelEnds_spec hu
  obtain ⟨hclosing, hne⟩ := hp.undecided hrunning
  refine ⟨h.senders, h.receiver, h.given, nofun, fun hs => List.mem_append_left _ (h.stopped hs),
    h.stop, fun o' ho' => ?_, fun e he => absurd (hclosing.symm.trans he) nofun,
    fun hret => absurd hret hne⟩
  cases ho'
  exact horigin

theorem Accounts.step (h : Accounts schedule s) (hp : Parts cfg ids s)
    (hstep : Step cfg ids s a t) (ht : t.stream.pc.inTail = false) :
    Accounts (schedule ++ [a]) t := by
  cases hstep with
  | stream hforeign hu => exact h.streamStep hp hforeign hu ht
  | signal hstopped =>
    have hsettled : Settled s { s with
        tunnel := { s.tunnel with stop := s.tunnel.stop.send true }
        sessions := s.sessions.map fun c => { c with stopped := true } } := ⟨rfl, rfl, rfl⟩
    refine ⟨h.senders, h.receiver, h.given, h.unused,
      fun hs => List.mem_append_left _ (h.stopped hs), fun _ => hstopped,
      fun o ho => (h.ended o ho).settled hsettled id _,
      fun e he => (h.closing e he).settled hsettled id _, fun hpc => ?_⟩
    obtain ⟨body, e, hbody, horigin⟩ := h.returned hpc
    exact ⟨body, e, hbody, horigin.settled hsettled id _⟩
  | tunnel hown hrunning hv hsend => exact h.tunnelStep hp hown hrunning hv hsend
  | @session k a task c c' v u _ htask hc hc' hv hsend =>
    obtain ⟨hused, q, rfl⟩ := send_taken hsend
    obtain ⟨tasks, rfl, -⟩ := afterSession_owners hv
    have hnone : gaveUps (((c'.log.drop c.log.length).filter fun e => !e.isGaveUp).map .conn) =
        [] := by
      rw [gaveUps_conn, List.filter_filter]
      simp
    exact h.takes (by rfl) (by rfl) (by rfl) hnone (hused.imp_left fun hnil => by rw [hnil]; rfl) _
  | @panics k e v hv =>
    obtain ⟨tasks, rfl, -⟩ := ends_owners hv
    have htaken : Accounts (schedule ++ [.panics k e])
        ⟨{ s.tunnel with tasks := tasks }, s.sessions, { s.stream with
          queue := s.stream.queue
          enqueued := s.stream.enqueued ++ if s.stream.receiver then [] else [] }⟩ :=
      h.takes (by rfl) (by rfl) (by rfl) rfl (.inl rfl) _
    rw [ite_self, List.append_nil] at htaken
    exact htaken
  | cert hu =>
    obtain ⟨hne, q, rfl⟩ := emit_taken hu
    exact h.takes rfl rfl rfl rfl (.inr hne) _
  | returns hpc hu =>
    refine h.tunnelEnds hp hu ?_
    exact .closed ⟨_, hpc, rfl, by rw [(tunnelEnds_spec hu).2]; exact h.given⟩
  | tunnelPanics hu =>
    exact h.tunnelEnds hp hu (.panicked _ rfl (List.mem_append_right _ (by simp)))

end Accounts

/-! ### How `run()` ends -/

/-- The connection a foreign event gives up, and why. -/
def gaveUpOf : TunnelEvent → Option ((String × String) × String)
  | .connectionGaveUp tag addr cause => some ((tag, addr), cause)
  | _ => none

theorem gaveUpOf_toEvent (x : Inner) :
    gaveUpOf x.toEvent = (event? x).bind ConnectionEvent.gaveUp? := by
  rcases x with pem | e
  · rfl
  · cases e <;> rfl

/-- What the foreign side was told about connections given up, by the items it was handed. -/
theorem gaveUpOf_items {log : List TunnelEvent} {xs : List Inner}
    (h : items log = xs.map Inner.toEvent) :
    log.filterMap gaveUpOf = (gaveUps xs).filterMap ConnectionEvent.gaveUp? := by
  have hitems : log.filterMap gaveUpOf = (items log).filterMap gaveUpOf := by
    rw [items, List.filterMap_filter]
    refine List.filterMap_congr fun e _ => ?_
    cases e <;> rfl
  rw [hitems, h, List.filterMap_map, gaveUps, List.filterMap_filter, List.filterMap_filterMap]
  refine List.filterMap_congr fun x _ => ?_
  rw [Function.comp_apply, gaveUpOf_toEvent]
  cases event? x with
  | none => rfl
  | some e => cases e <;> rfl

section Runs

variable {cfg : Config} {ids : ℕ → ℕ} {schedule : List Action} {s : State}

/-- A stream that is not in its tail never was. -/
theorem inTail_of_step {t : State} {a : Action} (hp : Parts cfg ids s)
    (hstep : Step cfg ids s a t) (ht : t.stream.pc.inTail = false) :
    s.stream.pc.inTail = false := by
  cases hstep with
  | stream _ hu => exact (step_inTail hp.stream.fresh hu ht).1
  | signal | panics => exact ht
  | tunnel _ _ _ hsend => obtain ⟨-, q, rfl⟩ := send_taken hsend; exact ht
  | session _ _ _ _ _ hsend => obtain ⟨-, q, rfl⟩ := send_taken hsend; exact ht
  | cert hu => obtain ⟨-, q, rfl⟩ := emit_taken hu; exact ht
  | returns _ hu => obtain ⟨-, rfl⟩ := tunnelEnds_spec hu; exact ht
  | tunnelPanics hu => obtain ⟨-, rfl⟩ := tunnelEnds_spec hu; exact ht

theorem accounts_of_runs (hids : ids.Injective)
    (hrun : runs (step cfg ids) (init cfg) schedule = some s) :
    Parts cfg ids s ∧ (s.stream.pc.inTail = false → Accounts schedule s) := by
  refine runs_history (P := fun schedule s =>
    Parts cfg ids s ∧ (s.stream.pc.inTail = false → Accounts schedule s))
    ⟨parts_init cfg ids, fun _ => accounts_init cfg⟩ (fun schedule s a t h hstep => ?_) hrun
  have hcases := step_cases hstep
  exact ⟨h.1.step hids hcases, fun ht => (h.2 (inTail_of_step h.1 hcases ht)).step h.1 hcases ht⟩

/-- The connections the foreign side was told of, once the tunnel task has ended by itself. -/
theorem given_of_closed {e : TunnelEvent} (hp : Parts cfg ids s) (ha : Accounts schedule s)
    (hpc : s.stream.pc = .returned) (hclosed : Closed s e) :
    s.stream.log.filterMap gaveUpOf = s.tunnel.given := by
  obtain ⟨xs, hitems, hend, henq⟩ := hp.stream.of_returned hpc
  obtain ⟨o, -, -, hgave⟩ := hclosed
  have hle : gaveUps s.stream.beforeEnd <+: gaveUps xs := (hend.filterMap _).filter _
  have hge : gaveUps xs <+: gaveUps s.stream.enqueued := (henq.filterMap _).filter _
  rw [hgave] at hle
  rw [ha.given] at hge
  rw [gaveUpOf_items hitems, hge.eq_of_length (le_antisymm hge.length_le hle.length_le)]
  rfl

/-- Where no tunnel was started, nothing comes before the terminal event. -/
theorem body_of_unused {body : List TunnelEvent} {e : TunnelEvent} (hp : Parts cfg ids s)
    (ha : Accounts schedule s) (hpc : s.stream.pc = .returned) (hlog : s.stream.log = body ++ [e])
    (hunused : s.stream.tunnel = .none) : body = [] := by
  have henq := ha.unused hunused
  obtain ⟨before, last, hlast, hterm, -, hbefore⟩ := hp.stream.terminal.last (.inl hpc)
  obtain ⟨rfl, hend⟩ := List.append_inj' (hlast.symm.trans hlog) rfl
  cases hend
  refine eq_nil_of_items ?_ (fun hstarted => ?_) hbefore
  · obtain ⟨xs, hitems, -, hxs⟩ := hp.stream.of_returned hpc
    rw [henq, List.prefix_nil] at hxs
    rw [hlog, items_concat_other _ (isItem_of_isTerminal hterm), hxs] at hitems
    exact hitems
  · have hmem : .started ∈ s.stream.log := by rw [hlog]; exact List.mem_append_left _ hstarted
    obtain ⟨x, hx, -⟩ := hp.stream.announced.due (hp.stream.announced.iff.2 hmem)
    rw [henq] at hx
    cases hx

end Runs

/-- **How `run()` ends.**  When `run()` has returned, the last event is `Stopped`, and then `stop()`
was called; or `Failed` because there was no runtime, and then it is the only event; or `Failed`
with the text of the panic of the tunnel task; or `Failed` with the cause of the last connection
given up, and then every connection of the client was reported as given up before it, each exactly
once. -/
theorem run_ends (cfg : Config) (ids : ℕ → ℕ) (hids : ids.Injective) (schedule : List Action)
    (s : State) (hrun : runs (step cfg ids) (init cfg) schedule = some s)
    (hpc : s.stream.pc = .returned) :
    ∃ body e, s.stream.log = body ++ [e] ∧
      (e = .stopped ∧ .stream .stop ∈ schedule ∨
        (∃ cause, e = .failed cause ∧ .stream (.run (.error cause)) ∈ schedule ∧ body = []) ∨
        (∃ text, e = .failed text ∧ .tunnelPanics text ∈ schedule) ∨
        e = .failed (formatErrorChain ("all tunnel connections gave up" ::
            ((body.filterMap gaveUpOf).getLast?.map Prod.snd).toList)) ∧
          ((body.filterMap gaveUpOf).map Prod.fst).Perm (Tunnel.connections cfg.tunnel)) := by
  obtain ⟨hp, ha⟩ := accounts_of_runs hids hrun
  replace ha := ha (by rw [hpc]; rfl)
  obtain ⟨body, e, hlog, horigin⟩ := ha.returned hpc
  refine ⟨body, e, hlog, ?_⟩
  cases horigin with
  | stopped he h => exact .inl ⟨he, h⟩
  | refused cause he h unused =>
    exact .inr (.inl ⟨cause, he, h, body_of_unused hp ha hpc hlog unused⟩)
  | panicked text he h => exact .inr (.inr (.inl ⟨text, he, h⟩))
  | closed hclosed =>
    have hgiven := given_of_closed hp ha hpc hclosed
    obtain ⟨o, ho, rfl, -⟩ := hclosed
    cases o with
    | ok => exact .inl ⟨rfl, ha.stopped (ha.stop (hp.tunnel.returned ho))⟩
    | error message source =>
      obtain ⟨rfl, rfl, hjoined⟩ := hp.exhausted.returned message source ho
      have hbody : body.filterMap gaveUpOf = s.tunnel.given := by
        rw [← hgiven, hlog, List.filterMap_append]
        exact (List.append_nil _).symm
      refine .inr (.inr (.inr ⟨?_, ?_⟩))
      · rw [hbody, ← hp.exhausted.lastErr]
        rfl
      · rw [hbody]
        refine hp.tunnel.owners_perm (by rw [ho]; rfl) (fun task htask => ?_) hjoined
        obtain ⟨hnone, hok⟩ := hp.tunnel.gaveUp _ _ ho task htask
        have hnot := hp.uncancelled task htask
        cases hending : task.ending with
        | none => exact absurd hending hnone
        | some ending =>
          cases ending with
          | ok => exact absurd hending hok
          | error e => exact ⟨e, .inl hending⟩
          | panicked e => exact ⟨e, .inr hending⟩
          | cancelled => exact absurd hending hnot

/-- One relay, and a budget of one attempt. -/
def oneAttempt : Config :=
  ⟨⟨["127.0.0.1:4433"], false⟩, { ReconnectPolicy.default with maxAttempts := 1 }, 1, false⟩

/-- The attempt fails, the connection is given up, and the tunnel with it. -/
def gaveUpRun : List Action :=
  [.stream (.run (.ok ())), .tunnel .spawn, .tunnel .spawn, .tunnel .check, .session 0 .enter,
    .session 0 (.go .connected), .session 0 (.go (.quicEnded ⟨"timed out", none⟩ none)),
    .session 0 (.go (.charge .unixEpoch)),
    .tunnel (.join 0), .tunnel .check, .tunnel .joinNone, .returns, .stream .recv,
    .stream .complete, .stream .join, .stream .complete]

theorem run_ends_gaveUpRun : ∃ s, runs (step oneAttempt id) (init oneAttempt) gaveUpRun = some s ∧
    s.stream.pc = .returned ∧
    s.stream.log = [.connectionGaveUp "PRI" "127.0.0.1:4433"
        "TUNNEL[PRI/127.0.0.1:4433]: giving up after 1 failed attempts",
      .failed ("all tunnel connections gave up: " ++
        "TUNNEL[PRI/127.0.0.1:4433]: giving up after 1 failed attempts")] ∧
    ∃ body e, s.stream.log = body ++ [e] :=
  let h := run_ends oneAttempt id Function.injective_id gaveUpRun _ rfl rfl
  ⟨_, rfl, rfl, by decide +kernel, h.choose, h.choose_spec.choose, h.choose_spec.choose_spec.1⟩

end Whole

end Ffi

end QuicTunnel
