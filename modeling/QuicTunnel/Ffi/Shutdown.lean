import QuicTunnel.Client.WindDown
import QuicTunnel.Ffi.Whole

/-!
# Stopping the whole client

Once `stop()` has reached the tunnel, the client closes its event stream in a bounded number of
steps, in whatever order its tasks run: every session winds down, the loop that joins the tasks
returns, and `run()`, or the tail if it was cancelled, delivers what is queued and then the terminal
event.  `State.work` bounds the steps that are left.  A step of a session or of the loop may enqueue
an event, whose delivery takes three steps, so those count four times.
-/

namespace QuicTunnel

namespace Ffi

/-! ### The stream -/

/-- The steps of the code behind a delivery, at most. -/
def Site.rank : Site → ℕ
  | .select => 6
  | .joined _ => 5
  | .tail => 2

/-- The steps the stream has left at an await point, at most, with an empty queue. -/
def Pc.rank : Pc → ℕ
  | .select => 6
  | .starting site _ => site.rank + 2
  | .delivering site _ => site.rank + 1
  | .ending _ => 4
  | .shutdown => 3
  | .tailEnding => 1
  | .idle | .returned | .tailDone | .abandoned => 0

/-- The steps the stream has left, at most: three for each queued item. -/
def State.rank (s : State) : ℕ :=
  3 * s.queue.length + s.pc.rank + s.receiver.toNat + (decide (s.tunnel = .running)).toNat

/-- The steps of `run()` and of the tail; that of an await inside `on_event` is its return. -/
def Action.works : Action → Bool
  | .recv | .recvClosed | .join | .complete | .shutdown => true
  | _ => false

/-- The steps that bring the stream closer to its end: those, and a cancellation. -/
def Action.spends : Action → Bool
  | .cancel _ => true
  | a => a.works

section Stream

variable {s t : State} {a : Action}

theorem deliver_rank (s : State) (site : Site) (item : Inner) :
    (deliver s site item).rank ≤ 3 * s.queue.length + (site.rank + 2) + s.receiver.toNat +
      (decide (s.tunnel = .running)).toNat := by
  obtain ⟨pc, h, rfl | rfl⟩ := deliver_frame s site item <;> rw [h] <;>
    simp only [State.rank, Pc.rank] <;> omega

/-- A loop's next turn. -/
theorem resume_rank (s : State) (site : Site) :
    (resume s site).rank ≤ 3 * s.queue.length + site.rank + s.receiver.toNat +
      (decide (s.tunnel = .running)).toNat := by
  have hdrain : ∀ next : Pc, next.rank ≤ site.rank → (drain s site next).rank ≤
      3 * s.queue.length + site.rank + s.receiver.toNat +
        (decide (s.tunnel = .running)).toNat := by
    intro next hnext
    rcases drain_cases s site next with ⟨h, -⟩ | ⟨item, rest, hq, h⟩
    · rw [h]
      simp only [State.rank]
      omega
    · rw [h, hq]
      have hdeliver := deliver_rank { s with queue := rest } site item
      simp only [List.length_cons] at hdeliver ⊢
      omega
  cases site with
  | select => exact Nat.le_refl _
  | joined o => exact hdrain (.ending o.event) (by simp [Pc.rank, Site.rank])
  | tail => exact hdrain .tailEnding (by simp [Pc.rank, Site.rank])

theorem completed_rank (hstep : completed s = some t) : t.rank < s.rank := by
  unfold completed at hstep
  split at hstep <;> rename_i hpc <;> cases hstep
  · simp [State.rank, Pc.rank, hpc]
  · rename_i site item
    have := resume_rank { s with log := s.log ++ [item.toEvent] } site
    refine Nat.lt_of_le_of_lt this ?_
    simp only [State.rank, hpc, Pc.rank]
    omega
  · simp only [State.rank, hpc, Pc.rank, Bool.toNat_false]
    omega
  · simp only [State.rank, hpc, Pc.rank, Bool.toNat_false]
    omega

/-- The turn that follows a join, or the tail's `tunnel.shutdown()`. -/
theorem reaped_rank (site : Site) (hpc : site.rank < s.pc.rank) :
    (resume { s with tunnel := s.tunnel.reaped } site).rank < s.rank := by
  have hle := resume_rank { s with tunnel := s.tunnel.reaped } site
  refine Nat.lt_of_le_of_lt hle ?_
  simp only [State.rank, s.tunnel.reaped_ne_running, decide_false, Bool.toNat_false]
  omega

/-- The whole tail comes behind every place where `run()` can be dropped. -/
theorem Pc.rank_of_guarded {pc : Pc} (h : pc.guarded = true) : 4 ≤ pc.rank := by
  cases pc with
  | select | ending => simp [Pc.rank]
  | starting site | delivering site => cases site <;> simp [Pc.rank, Site.rank, Pc.guarded] at h ⊢
  | idle | returned | shutdown | tailEnding | tailDone | abandoned => cases h

/-- **Every step of `run()` or of the tail brings the stream closer to its end**, and so does a
cancellation. -/
theorem rank_lt_of_spends (hspends : a.spends = true) (hstep : step s a = some t) :
    t.rank < s.rank := by
  cases a with
  | run | stop | emit | dropSenders | tunnelEnds => cases hspends
  | recv =>
    obtain ⟨hpc, item, rest, hq, rfl⟩ := recv_spec hstep
    have := deliver_rank { s with queue := rest } .select item
    refine Nat.lt_of_le_of_lt this ?_
    simp only [State.rank, hpc, hq, Pc.rank, Site.rank, List.length_cons]
    omega
  | recvClosed =>
    simp only [step] at hstep
    split at hstep
    · rename_i _ hr _
      split_ifs at hstep
      cases hstep
      simp [State.rank, hr]
    · cases hstep
  | join =>
    obtain ⟨hpc, o, htunnel, rfl⟩ := join_spec hstep
    exact reaped_rank (.joined o) (by simp [hpc, Pc.rank, Site.rank])
  | complete => exact completed_rank hstep
  | cancel spawned =>
    obtain ⟨rfl, hguarded, -⟩ := cancelled_spec hstep
    have hto : (if spawned then Pc.shutdown else .abandoned).rank ≤ 3 := by
      cases spawned <;> simp [Pc.rank]
    have hfrom := Pc.rank_of_guarded hguarded
    simp only [State.rank]
    omega
  | shutdown =>
    obtain ⟨hpc, rfl⟩ := shutdown_spec hstep
    exact reaped_rank .tail (by simp [hpc, Pc.rank, Site.rank])

theorem emit_rank {x : Inner} (hstep : step s (.emit x) = some t) : t.rank ≤ s.rank + 3 := by
  rcases (emit_spec hstep).2 with rfl | ⟨-, rfl⟩
  · omega
  · simp only [State.rank, List.length_append, List.length_singleton]
    omega

theorem started_of_step (hstarted : s.started = true) (hstep : step s a = some t) :
    t.started = true := by
  cases a with
  | run runtime =>
    cases hstep
    simp [callRun, hstarted]
  | stop | dropSenders => cases hstep; exact hstarted
  | emit x => rcases (emit_spec hstep).2 with rfl | ⟨-, rfl⟩ <;> exact hstarted
  | tunnelEnds o => obtain ⟨-, rfl⟩ := tunnelEnds_spec hstep; exact hstarted
  | recv =>
    obtain ⟨-, item, rest, -, rfl⟩ := recv_spec hstep
    obtain ⟨pc, hd, -⟩ := deliver_frame { s with queue := rest } .select item
    rw [hd]
    exact hstarted
  | recvClosed => obtain ⟨-, rfl⟩ := recvClosed_spec hstep; exact hstarted
  | join =>
    obtain ⟨-, o, -, rfl⟩ := join_spec hstep
    obtain ⟨pc, q, hr, -⟩ := resume_frame { s with tunnel := s.tunnel.reaped } (.joined o)
    rw [hr]
    exact hstarted
  | complete => exact (completed_continues hstep).started.trans hstarted
  | cancel spawned => obtain ⟨rfl, -, -⟩ := cancelled_spec hstep; exact hstarted
  | shutdown =>
    obtain ⟨-, rfl⟩ := shutdown_spec hstep
    obtain ⟨pc, q, hr, -⟩ := resume_frame { s with tunnel := s.tunnel.reaped } .tail
    rw [hr]
    exact hstarted

/-- A stream that is not closed and does not wait for the tunnel can make a step. -/
theorem exists_works (h : Placed s) (hstarted : s.started = true) :
    s.finished ∨ s.pc = .abandoned ∨ s.tunnel = .running ∨
      ∃ a, a.works = true ∧ a.foreign = true ∧ (step s a).isSome := by
  cases hpc : s.pc with
  | idle => exact absurd hpc (h.underway hstarted)
  | select =>
    rcases h.select (by rw [hpc]; rfl) with hrunning | ⟨o, hended⟩
    · exact .inr (.inr (.inl hrunning))
    · exact .inr (.inr (.inr ⟨.join, rfl, rfl, by simp [step, hpc, hended]⟩))
  | starting | delivering | ending | tailEnding =>
    exact .inr (.inr (.inr ⟨.complete, rfl, rfl, by simp [step, completed, hpc]⟩))
  | shutdown => exact .inr (.inr (.inr ⟨.shutdown, rfl, rfl, by simp [step, hpc]⟩))
  | returned => exact .inl (.inl hpc)
  | tailDone => exact .inl (.inr hpc)
  | abandoned => exact .inr (.inl rfl)

end Stream

end Ffi

/-! ### The loop that joins the tasks -/

namespace Tunnel

/-- The steps the loop has left once it is stopped, at most; spawning a task counts twice. -/
def Pc.rank : Pc → ℕ
  | .spawning rest => 2 * rest.length + 3
  | .select => 2
  | .head => 1
  | .returned _ => 0

/-- The tasks that have not ended. -/
def State.live (v : State) : ℕ := v.tasks.countP fun task => task.ending.isNone

/-- What the wait for a signal rests on: it is entered only before the first one. -/
structure Waits (v : State) : Prop where
  select : v.pc = .select → v.seen = 0
  sent : v.stop.value = true → v.stop.version ≠ 0
  unsent : v.stop.value = false → v.stop.version = 0
  seen : v.seen ≤ v.stop.version

section Steps

variable {ids : ℕ → ℕ} {v w : State} {a : Action}

theorem waits_init (cfg : Config) : Waits (init cfg) :=
  ⟨fun h => (by cases h), fun h => (by cases h), fun _ => rfl, Nat.le_refl _⟩

theorem Waits.step (h : Waits v) (hstep : step ids v a = some w) : Waits w := by
  cases a with
  | stop =>
    cases hstep
    exact ⟨h.select, fun _ => Nat.succ_ne_zero _, nofun, Nat.le_succ_of_le h.seen⟩
  | spawn =>
    simp only [Tunnel.step] at hstep
    split at hstep <;> cases hstep
    · exact ⟨fun hpc => (by cases hpc), h.sent, h.unsent, h.seen⟩
    · exact ⟨fun hpc => (by cases hpc), h.sent, h.unsent, Nat.le_refl _⟩
  | ends k ending =>
    obtain ⟨task, -, hstep⟩ := Option.bind_eq_some_iff.1 hstep
    split_ifs at hstep
    cases hstep
    exact ⟨h.select, h.sent, h.unsent, h.seen⟩
  | check =>
    simp only [Tunnel.step] at hstep
    split_ifs at hstep with hpc hvalue
    · cases hstep
      exact ⟨fun hpc => (by cases hpc), h.sent, h.unsent, h.seen⟩
    · cases hstep
      refine ⟨fun _ => ?_, h.sent, h.unsent, h.seen⟩
      have := h.seen
      rw [h.unsent (Bool.eq_false_of_not_eq_true hvalue)] at this
      exact Nat.le_zero.1 this
  | stopChanged | joinNone =>
    simp only [Tunnel.step] at hstep
    split_ifs at hstep
    cases hstep
    exact ⟨fun hpc => (by cases hpc), h.sent, h.unsent, h.seen⟩
  | join k =>
    simp only [Tunnel.step] at hstep
    split_ifs at hstep
    obtain ⟨task, -, hstep⟩ := Option.bind_eq_some_iff.1 hstep
    obtain ⟨ending, -, rfl⟩ := Option.map_eq_some_iff.1 hstep
    cases ending <;> exact ⟨fun hpc => (by cases hpc), h.sent, h.unsent, h.seen⟩

theorem ends_live {k : ℕ} {e : Ending} (hstep : step ids v (.ends k e) = some w) :
    w.live < v.live ∧ w.pc = v.pc := by
  obtain ⟨task, htask, hstep⟩ := Option.bind_eq_some_iff.1 hstep
  split_ifs at hstep with hc
  cases hstep
  have hcount := List.countP_set_add (fun task : Task => task.ending.isNone) htask
    { task with ending := some e }
  refine ⟨?_, rfl⟩
  rw [hc.1] at hcount
  simp only [State.live, Option.isNone_none, Option.isNone_some, if_true, Bool.false_eq_true,
    if_false] at hcount ⊢
  omega

/-- **A step of a stopped loop**: what it spawns and reports is paid for. -/
theorem rank_of_step (hvalue : v.stop.value = true) (hown : a.ofRun = true)
    (hstep : step ids v a = some w) :
    1 + 4 * w.pc.rank + w.live + 4 * (w.tasks.length - v.tasks.length) +
      3 * (w.log.length - v.log.length) ≤ 4 * v.pc.rank + v.live := by
  cases a with
  | stop | ends => cases hown
  | spawn =>
    simp only [step] at hstep
    split at hstep <;> rename_i hpc <;> cases hstep
    · simp only [hpc, Pc.rank, State.live, List.countP_append, List.length_append, List.length_cons,
        List.length_nil, List.countP_cons, List.countP_nil, Option.isNone_none, if_true]
      omega
    · simp only [hpc, Pc.rank, List.length_nil, State.live]
      omega
  | check =>
    simp only [step, hvalue] at hstep
    split_ifs at hstep with hpc
    cases hstep
    simp only [hpc, Pc.rank, State.live]
    omega
  | stopChanged | joinNone =>
    simp only [step] at hstep
    split_ifs at hstep with hc
    cases hstep
    simp only [hc.1, Pc.rank, State.live]
    omega
  | join k =>
    simp only [step] at hstep
    split_ifs at hstep with hc
    obtain ⟨task, -, hstep⟩ := Option.bind_eq_some_iff.1 hstep
    obtain ⟨ending, -, rfl⟩ := Option.map_eq_some_iff.1 hstep
    cases ending <;>
      simp only [State.account, State.gaveUp, hc.1, Pc.rank, State.live, List.length_append,
        List.length_singleton] <;> omega

/-- A stopped loop that has not returned can make a step. -/
theorem exists_step (ids : ℕ → ℕ) (h : Waits v) (hvalue : v.stop.value = true) :
    (∃ o, v.pc = .returned o) ∨
      ∃ a w, a.ofRun = true ∧ step ids v a = some w ∧ w.log = v.log := by
  cases hpc : v.pc with
  | spawning rest =>
    cases rest with
    | nil =>
      exact .inr ⟨.spawn, { v with seen := v.stop.version, pc := .head }, rfl,
        by simp only [step, hpc], rfl⟩
    | cons owner rest =>
      obtain ⟨tag, serverAddr⟩ := owner
      exact .inr ⟨.spawn, { v with
        tasks := v.tasks ++ [⟨tag, serverAddr, none⟩]
        owners := Function.update v.owners (ids v.tasks.length) (some (tag, serverAddr))
        pc := .spawning rest }, rfl, by simp only [step, hpc], rfl⟩
  | head =>
    exact .inr ⟨.check, { v with pc := .returned .ok }, rfl,
      by simp only [step, hpc, hvalue, if_true], rfl⟩
  | select =>
    have hne : v.stop.version ≠ v.seen := by
      rw [h.select hpc]
      exact h.sent hvalue
    refine .inr ⟨.stopChanged, { v with pc := .returned .ok }, rfl, ?_, rfl⟩
    simp only [step, hpc, Watch.changed, if_pos hne, Option.isSome_some, and_self, if_true]
  | returned o => exact .inl ⟨o, rfl⟩

end Steps

end Tunnel

/-! ### The whole client -/

namespace Ffi.Whole

open Transition

/-- The steps the client has left once it is stopped, at most. -/
def State.work (poolSize : ℕ) (s : State) : ℕ :=
  s.stream.rank + 4 * (s.sessions.map (ConnectionRun.State.rank poolSize)).sum +
    4 * s.tunnel.pc.rank + s.tunnel.live

/-- The steps of `run()` or its tail, and of the loop that joins the tasks. -/
def Action.works : Action → Bool
  | .stream a => a.works
  | .tunnel _ | .returns => true
  | _ => false

/-- The steps that bring the client closer to its end: those of all its tasks, a panic of one and a
cancellation. -/
def Action.spends : Action → Bool
  | .stream a => a.spends
  | .tunnel _ | .session .. | .panics .. | .returns | .tunnelPanics _ => true
  | .signal | .cert _ => false

def Action.isCert : Action → Bool
  | .cert _ => true
  | _ => false

section Steps

variable {cfg : Config} {ids : ℕ → ℕ} {s t : State} {a : Action}

theorem Action.spends_of_works (h : a.works = true) : a.spends = true ∧ a.isCert = false := by
  cases a with
  | stream a =>
    cases a with
    | cancel => cases h
    | run | stop | emit | dropSenders | tunnelEnds => cases h
    | recv | recvClosed | join | complete | shutdown => exact ⟨rfl, rfl⟩
  | tunnel | returns => exact ⟨rfl, rfl⟩
  | session | panics | tunnelPanics | signal | cert => cases h

theorem waits_of_step (h : Tunnel.Waits s.tunnel) (hstep : Step cfg ids s a t) :
    Tunnel.Waits t.tunnel := by
  cases hstep with
  | stream | cert | returns | tunnelPanics => exact h
  | signal =>
    have hstop : Tunnel.step ids s.tunnel .stop =
        some { s.tunnel with stop := s.tunnel.stop.send true } := rfl
    exact h.step hstop
  | tunnel _ _ hv => exact h.step hv
  | session _ _ _ _ hv =>
    obtain ⟨tasks, rfl, -⟩ := afterSession_owners hv
    exact ⟨h.select, h.sent, h.unsent, h.seen⟩
  | panics hv =>
    obtain ⟨tasks, rfl, -⟩ := ends_owners hv
    exact ⟨h.select, h.sent, h.unsent, h.seen⟩

theorem send_rank {s u : Ffi.State} {events : List ConnectionEvent}
    (h : send s events = some u) : u.rank ≤ s.rank + 3 * events.length := by
  induction events generalizing s with
  | nil =>
    cases h
    exact Nat.le_refl _
  | cons e events ih =>
    obtain ⟨v, hv, h⟩ := runs_cons_eq_some h
    have hhead := emit_rank hv
    have htail := ih h
    rw [List.length_cons]
    omega

theorem afterSession_live {k : ℕ} {task : Tunnel.Task} {c : ConnectionRun.State}
    {v : Tunnel.State}
    (h : afterSession ids s.tunnel k task c = some v) :
    v.live ≤ s.tunnel.live ∧ v.pc = s.tunnel.pc := by
  rcases afterSession_cases h with rfl | ⟨e, -, he⟩
  · exact ⟨Nat.le_refl _, rfl⟩
  · exact ⟨(Tunnel.ends_live he).1.le, (Tunnel.ends_live he).2⟩

/-- A task spawned into a stopped tunnel has one step left. -/
theorem sum_rank_spawned (cfg : Config) (stopped : Bool) (tasks : List Tunnel.Task) :
    ((tasks.map (spawned cfg stopped)).map (ConnectionRun.State.rank cfg.poolSize)).sum =
      tasks.length := by
  induction tasks with
  | nil => rfl
  | cons task tasks ih =>
    rw [List.map_cons, List.map_cons, List.sum_cons, ih, List.length_cons, Nat.add_comm]
    rfl

/-- A step of a stream that was started is paid for by the stream. -/
theorem stream_rank_of_step {s u : Ffi.State} {a : Ffi.Action} (hstarted : s.started = true)
    (hforeign : a.foreign = true) (hstep : Ffi.step s a = some u) :
    (if a.spends then 1 else 0) + u.rank ≤ s.rank := by
  cases hspends : a.spends with
  | true =>
    rw [if_pos rfl]
    exact Nat.one_add_le_iff.2 (rank_lt_of_spends hspends hstep)
  | false =>
    rw [if_neg Bool.false_ne_true, Nat.zero_add]
    cases a with
    | run runtime =>
      cases hstep
      simp [callRun, hstarted]
    | stop =>
      cases hstep
      exact Nat.le_refl _
    | emit | dropSenders | tunnelEnds => cases hforeign
    | recv | recvClosed | join | complete | cancel | shutdown => cases hspends

/-- **Every step of a stopped client is paid for**, and a certificate adds three. -/
theorem work_of_step (hp : Parts cfg ids s) (hstarted : s.stream.started = true)
    (hstop : s.tunnel.stop.value = true) (hstep : Step cfg ids s a t) :
    (if a.spends then 1 else 0) + t.work cfg.poolSize ≤
      s.work cfg.poolSize + if a.isCert then 3 else 0 := by
  cases hstep with
  | @stream a u hforeign hu =>
    have hle : (if (Action.stream a).spends then 1 else 0) + u.rank ≤ s.stream.rank :=
      stream_rank_of_step hstarted hforeign hu
    simp only [Action.isCert, State.work, Bool.false_eq_true, if_false]
    omega
  | signal =>
    have hranks : ((s.sessions.map fun c => { c with stopped := true }).map
        (ConnectionRun.State.rank cfg.poolSize)).sum =
          (s.sessions.map (ConnectionRun.State.rank cfg.poolSize)).sum := by
      rw [List.map_map]
      rfl
    simp only [Action.spends, Action.isCert, State.work, Tunnel.State.live, hranks,
      Bool.false_eq_true, if_false]
    omega
  | @tunnel a v u hown hrunning hv hsend =>
    have htunnel := Tunnel.rank_of_step hstop hown hv
    have hstream := send_rank hsend
    rw [List.length_drop] at hstream
    simp only [Action.spends, Action.isCert, State.work, List.map_append, List.sum_append,
      sum_rank_spawned, List.length_drop, Bool.false_eq_true, if_false, if_true]
    omega
  | @session k a task c c' v u hne htask hc hc' hv hsend =>
    have hcstop : c.stopped = true := (hp.flags c (List.mem_of_getElem? hc)).trans hstop
    have hrank : c'.rank cfg.poolSize < c.rank cfg.poolSize :=
      ConnectionRun.rank_lt_of_step hcstop hne hc'
    have hsum := List.sum_map_set_add (ConnectionRun.State.rank cfg.poolSize) hc c'
    have hlive := afterSession_live hv
    have hstream := send_rank hsend
    have hevents : ((c'.log.drop c.log.length).filter fun e => !e.isGaveUp).length ≤ 1 := by
      refine (List.length_filter_le _ _).trans ?_
      have := ConnectionRun.log_length_of_step hc'
      rw [List.length_drop]
      omega
    simp only [Action.spends, Action.isCert, State.work, hlive.2, Bool.false_eq_true, if_false,
      if_true]
    omega
  | panics hv =>
    have hlive := Tunnel.ends_live hv
    simp only [Action.spends, Action.isCert, State.work, hlive.2, Bool.false_eq_true, if_false,
      if_true]
    omega
  | cert hu =>
    have := emit_rank hu
    simp only [Action.spends, Action.isCert, State.work, Bool.false_eq_true, if_false, if_true]
    omega
  | returns _ hu | tunnelPanics hu =>
    obtain ⟨hrunning, rfl⟩ := tunnelEnds_spec hu
    simp [Action.spends, Action.isCert, State.work, Ffi.State.rank, hrunning]
    omega

/-- A client that was started and stopped. -/
structure Stopping (cfg : Config) (ids : ℕ → ℕ) (s : State) : Prop where
  parts : Parts cfg ids s
  waits : Tunnel.Waits s.tunnel
  started : s.stream.started = true
  stop : s.tunnel.stop.value = true

theorem Stopping.keeps (h : Stopping cfg ids s) (hids : ids.Injective)
    (hstep : Step cfg ids s a t) : Stopping cfg ids t := by
  refine ⟨h.parts.step hids hstep, waits_of_step h.waits hstep, ?_, ?_⟩
  · have hsend : ∀ {events : List ConnectionEvent} {u : Ffi.State},
        send s.stream events = some u → u.started = true := fun hu =>
      runs_invariant (P := fun u : Ffi.State => u.started = true)
        (fun _ _ _ hs hstep => started_of_step hs hstep) hu h.started
    cases hstep with
    | signal | panics => exact h.started
    | stream _ hu | cert hu | returns _ hu | tunnelPanics hu => exact started_of_step h.started hu
    | tunnel _ _ _ hu => exact hsend hu
    | session _ _ _ _ _ hu => exact hsend hu
  · cases hstep with
    | signal => rfl
    | stream | cert | returns | tunnelPanics => exact h.stop
    | tunnel hown _ hv =>
      rcases (Tunnel.step_frame hv).1 with rfl | hsame
      · cases hown
      · rw [hsame]
        exact h.stop
    | session _ _ _ _ hv => obtain ⟨tasks, rfl, -⟩ := afterSession_owners hv; exact h.stop
    | panics hv => obtain ⟨tasks, rfl, -⟩ := ends_owners hv; exact h.stop

/-- A stopped client whose stream is not closed can make a step. -/
theorem Stopping.exists_works (h : Stopping cfg ids s) :
    s.stream.finished ∨ s.stream.pc = .abandoned ∨
      ∃ a, a.works = true ∧ (step cfg ids s a).isSome := by
  rcases Ffi.exists_works h.parts.stream.toPlaced h.started with
    hfin | hpc | hrunning | ⟨a, hworks, hforeign, hstep⟩
  · exact .inl hfin
  · exact .inr (.inl hpc)
  · rcases Tunnel.exists_step ids h.waits h.stop with ⟨o, ho⟩ | ⟨a, w, hown, hw, hlog⟩
    · exact .inr (.inr ⟨.returns, rfl, by simp [step, ho, Ffi.step, hrunning]⟩)
    · refine .inr (.inr ⟨.tunnel a, rfl, ?_⟩)
      simp only [step, hown, hrunning, and_self, if_true, hw, Option.bind_some, hlog,
        List.drop_length]
      rfl
  · refine .inr (.inr ⟨.stream a, hworks, ?_⟩)
    simp only [step, hforeign, if_true, Option.isSome_map, hstep]

/-- Only a cancellation leaves a stream without a tail. -/
theorem not_abandoned_of_works (hworks : a.works = true) (hstep : Step cfg ids s a t)
    (hs : s.stream.pc ≠ .abandoned) : t.stream.pc ≠ .abandoned := by
  intro ht
  cases hstep with
  | stream _ hu =>
    rcases step_abandoned hu ht with hpc | rfl
    · exact hs hpc
    · cases hworks
  | tunnel _ _ _ hu => obtain ⟨-, q, rfl⟩ := send_taken hu; exact hs ht
  | returns _ hu => obtain ⟨-, rfl⟩ := tunnelEnds_spec hu; exact hs ht
  | signal | session | panics | cert | tunnelPanics => cases hworks

/-- Left to themselves, `run()` and the loop close the stream, by induction on the work left. -/
theorem Stopping.closes (hids : ids.Injective) (h : Stopping cfg ids s)
    (hs : s.stream.pc ≠ .abandoned) :
    ∃ own u, (∀ a ∈ own, a.works = true) ∧ runs (step cfg ids) s own = some u ∧
      Stopping cfg ids u ∧ u.stream.finished := by
  induction hn : s.work cfg.poolSize using Nat.strong_induction_on generalizing s with
  | _ n ih =>
    rcases h.exists_works with hfin | hpc | ⟨a, hworks, hstep⟩
    · exact ⟨[], s, by simp, rfl, h, hfin⟩
    · exact absurd hpc hs
    · obtain ⟨t, ht⟩ := Option.isSome_iff_exists.1 hstep
      have hcases := step_cases ht
      obtain ⟨hspends, hcert⟩ := Action.spends_of_works hworks
      have hwork := work_of_step h.parts h.started h.stop hcases
      rw [if_pos hspends, hcert, if_neg (by simp), hn] at hwork
      obtain ⟨own, u, hown, hu, hend⟩ := ih (t.work cfg.poolSize) (by omega)
        (h.keeps hids hcases) (not_abandoned_of_works hworks hcases hs) rfl
      refine ⟨a :: own, u, fun b hb => ?_, by rw [runs_cons, ht]; exact hu, hend⟩
      rcases List.mem_cons.1 hb with rfl | hb
      · exact hworks
      · exact hown b hb

end Steps

/-- **Stopping closes the stream.**  Once `run()` has been called and `stop()` has reached the
tunnel, the client makes at most `work` more steps, three more for each certificate that still
arrives, in any order; and unless a cancelled `run()` found no place for its tail, `run()` or the
tail and the loop that joins the tasks get by themselves, whatever the sessions do, to a stream that
ends with a terminal event. -/
theorem stop_closes_stream (cfg : Config) (ids : ℕ → ℕ) (hids : ids.Injective)
    (before rest : List Action) (s t : State)
    (hbefore : runs (step cfg ids) (init cfg) before = some s)
    (hstarted : s.stream.started = true) (hstop : s.tunnel.stop.value = true)
    (hrest : runs (step cfg ids) s rest = some t) :
    rest.countP Action.spends ≤ s.work cfg.poolSize + 3 * rest.countP Action.isCert ∧
      (t.stream.pc = .abandoned ∨
        ∃ own u, (∀ a ∈ own, a.works = true) ∧ runs (step cfg ids) t own = some u ∧
          ∃ body e, u.stream.log = body ++ [e] ∧ e.isTerminal = true) := by
  obtain ⟨hp, -⟩ := accounts_of_runs hids hbefore
  have hwaits : Tunnel.Waits s.tunnel :=
    runs_invariant (P := fun s : State => Tunnel.Waits s.tunnel)
      (fun _ _ _ h hstep => waits_of_step h (step_cases hstep)) hbefore
      (Tunnel.waits_init cfg.tunnel)
  have hs : Stopping cfg ids s := ⟨hp, hwaits, hstarted, hstop⟩
  have hkept : ∀ (s : State) a t, Stopping cfg ids s → step cfg ids s a = some t →
      Stopping cfg ids t := fun _ _ _ h hstep => h.keeps hids (step_cases hstep)
  have hcount := runs_countP_le (p := Action.spends) (q := Action.isCert) hkept
    (fun _ _ _ h hstep => work_of_step h.parts h.started h.stop (step_cases hstep)) hrest hs
  have ht : Stopping cfg ids t := runs_invariant hkept hrest hs
  refine ⟨by omega, ?_⟩
  by_cases habandoned : t.stream.pc = .abandoned
  · exact .inl habandoned
  · obtain ⟨own, u, hown, hu, hend, hfin⟩ := ht.closes hids habandoned
    obtain ⟨body, e, hlog, he, -⟩ := hend.parts.stream.terminal.last hfin
    exact .inr ⟨own, u, hown, hu, body, e, hlog, he⟩

/-- One connection that has not been attempted when `stop()` is called. -/
def stoppedEarly : List Action :=
  [.stream (.run (.ok ())), .tunnel .spawn, .tunnel .spawn, .tunnel .check, .stream .stop, .signal]

/-- The loop sees the signal, and `run()` joins it. -/
def closingRun : List Action := [.tunnel .stopChanged, .returns, .stream .join, .stream .complete]

theorem stop_closes_stream_early : ∃ s t,
    runs (step oneAttempt id) (init oneAttempt) stoppedEarly = some s ∧
      s.work oneAttempt.poolSize = 21 ∧
      runs (step oneAttempt id) s closingRun = some t ∧ t.stream.log = [.stopped] ∧
      closingRun.countP Action.spends ≤
        s.work oneAttempt.poolSize + 3 * closingRun.countP Action.isCert :=
  let h := stop_closes_stream oneAttempt id Function.injective_id stoppedEarly closingRun _ _ rfl
    rfl rfl rfl
  ⟨_, _, rfl, by decide, rfl, rfl, h.1⟩

end Ffi.Whole

end QuicTunnel
