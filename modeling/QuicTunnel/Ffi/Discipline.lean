import QuicTunnel.Ffi.Stream

/-!
# The discipline of the stream

Where the future of `run()` stands, and what follows for the stream.  A drain is left only at an
empty queue (`Control.step_drained`), so what the channel took before the tunnel task ended is out
of it when the terminal event is delivered, though `run()` may join the task with items queued.
`Discipline` puts this together with the effects of the steps.

`State.Ends` says that the end is reached: by a `run()` whose tunnel task has ended, and by the tail
of one that was dropped.
-/

namespace QuicTunnel.Ffi

open Transition

/-! ### Where the future stands -/

/-- The await points behind the join of the tunnel task. -/
def Pc.afterJoin : Pc → Bool
  | .starting (.joined _) _ | .delivering (.joined _) _ | .ending _ | .returned => true
  | _ => false

/-- The await points of a stream whose future was dropped. -/
def Pc.inTail : Pc → Bool
  | .starting .tail _ | .delivering .tail _ | .shutdown | .tailEnding | .tailDone
  | .abandoned => true
  | _ => false

/-- The await points behind a drain. -/
def Pc.drained : Pc → Bool
  | .ending _ | .returned | .tailEnding | .tailDone => true
  | _ => false

/-- The await points of the `select!` loop. -/
def Pc.selecting : Pc → Bool
  | .select | .starting .select _ | .delivering .select _ => true
  | _ => false

theorem Pc.afterJoin_of_drained {pc : Pc} (h : pc.drained = true) (hin : pc.inTail = false) :
    pc.afterJoin = true := by
  cases pc <;> simp_all [Pc.drained, Pc.inTail, Pc.afterJoin]

section Place

variable (s : State) (site : Site) (item : Inner)

/-- `deliver` touches the await point only. -/
theorem deliver_frame : ∃ pc, deliver s site item = { s with pc := pc } ∧
    (pc = .starting site item ∨ pc = .delivering site item) := by
  rcases deliver_cases s site item with ⟨-, -, h⟩ | ⟨-, h⟩
  · exact ⟨_, h, Or.inl rfl⟩
  · exact ⟨_, h, Or.inr rfl⟩

/-- A drain touches the await point and the queue only. -/
theorem drain_frame (next : Pc) : ∃ pc q, drain s site next = { s with pc := pc, queue := q } ∧
    (pc = next ∨ ∃ item, pc = .starting site item ∨ pc = .delivering site item) := by
  rcases drain_cases s site next with ⟨h, -⟩ | ⟨item, rest, -, h⟩
  · exact ⟨next, s.queue, h, Or.inl rfl⟩
  · obtain ⟨pc, hd, hpc⟩ := deliver_frame { s with queue := rest } site item
    exact ⟨pc, rest, h.trans hd, Or.inr ⟨item, hpc⟩⟩

/-- A loop's next turn touches the await point and the queue only, and stays at its site. -/
theorem resume_frame : ∃ pc q, resume s site = { s with pc := pc, queue := q } ∧ pc ≠ .idle ∧
    (pc.afterJoin = true → ∃ o, site = .joined o) ∧ (pc.inTail = true ↔ site = .tail) := by
  cases site with
  | select => exact ⟨.select, s.queue, rfl, by simp, by simp [Pc.afterJoin], by simp [Pc.inTail]⟩
  | joined o =>
    obtain ⟨pc, q, h, hpc⟩ := drain_frame s (.joined o) (.ending o.event)
    refine ⟨pc, q, h, ?_, fun _ => ⟨o, rfl⟩, ?_⟩ <;>
      rcases hpc with rfl | ⟨item, rfl | rfl⟩ <;> simp [Pc.inTail]
  | tail =>
    obtain ⟨pc, q, h, hpc⟩ := drain_frame s .tail .tailEnding
    refine ⟨pc, q, h, ?_, ?_, ?_⟩ <;>
      rcases hpc with rfl | ⟨item, rfl | rfl⟩ <;> simp [Pc.inTail, Pc.afterJoin]

theorem deliver_not_drained : (deliver s site item).pc.drained = false := by
  obtain ⟨pc, hd, rfl | rfl⟩ := deliver_frame s site item <;> rw [hd] <;> rfl

end Place

section Drained

variable {s : State} {site : Site}

/-- A drain is left only at an empty queue. -/
theorem drain_drained {next : Pc} (h : (drain s site next).pc.drained = true)
    (hclosed : s.receiver = false → s.queue = []) : (drain s site next).queue = [] := by
  rcases drain_cases s site next with ⟨hr, hempty⟩ | ⟨item, rest, -, hr⟩
  · rw [hr]
    cases hrecv : s.receiver with
    | true => exact hempty hrecv
    | false => exact hclosed hrecv
  · rw [hr, deliver_not_drained] at h
    cases h

/-- So is a loop that ends in one. -/
theorem resume_drained (h : (resume s site).pc.drained = true)
    (hclosed : s.receiver = false → s.queue = []) : (resume s site).queue = [] := by
  cases site with
  | select => cases h
  | joined o => exact drain_drained h hclosed
  | tail => exact drain_drained h hclosed

end Drained

section StepPlace

variable {s t : State} {a : Action}

/-- The code behind a completed call: it takes items, and stays in its loop or finishes. -/
structure Continues (s t : State) : Prop where
  started : t.started = s.started
  tunnel : t.tunnel = s.tunnel
  beforeEnd : t.beforeEnd = s.beforeEnd
  enqueued : t.enqueued = s.enqueued
  receiver : t.receiver = s.receiver ∨ t.finished
  queue : s.queue = [] → t.queue = []
  idle : t.pc ≠ .idle
  afterJoin : t.pc.afterJoin = true → s.pc.afterJoin = true
  inTail : t.pc.inTail = s.pc.inTail

theorem completed_continues (h : completed s = some t) : Continues s t := by
  unfold completed at h
  split at h <;> rename_i hpc
  · rename_i site item
    cases h
    refine ⟨rfl, rfl, rfl, rfl, Or.inl rfl, id, by simp, ?_, ?_⟩ <;> cases site <;>
      simp [hpc, Pc.afterJoin, Pc.inTail]
  · rename_i site item
    cases h
    have hm := resume_movedOn { s with log := s.log ++ [item.toEvent] } site
    obtain ⟨pc, q, h, hidle, hjoin, htail⟩ :=
      resume_frame { s with log := s.log ++ [item.toEvent] } site
    rw [h] at hm ⊢
    refine ⟨rfl, rfl, rfl, rfl, Or.inl rfl, fun hq => ?_, hidle, fun hj => ?_, ?_⟩
    · have hp : pc.inHand ++ q = s.queue := hm.pending
      rw [hq] at hp
      exact (List.append_eq_nil_iff.1 hp).2
    · obtain ⟨o, rfl⟩ := hjoin hj
      rw [hpc]
      rfl
    · rw [hpc, Bool.eq_iff_iff, htail]
      cases site <;> simp [Pc.inTail]
  · cases h
    exact ⟨rfl, rfl, rfl, rfl, Or.inr (Or.inl rfl), id, by simp, by simp [hpc, Pc.afterJoin],
      by simp [hpc, Pc.inTail]⟩
  · cases h
    exact ⟨rfl, rfl, rfl, rfl, Or.inr (Or.inr rfl), id, by simp, by simp [Pc.afterJoin],
      by simp [hpc, Pc.inTail]⟩
  · cases h

/-- `run()` up to its first await: refused, ended at once, or started. -/
theorem callRun_cases (s : State) (runtime : Except String Unit) :
    callRun s runtime = s ∨ s.started = false ∧
      ((∃ e, callRun s runtime = { s with started := true, pc := .ending e }) ∨
        callRun s runtime = { s with started := true, tunnel := .running, pc := .select }) := by
  unfold callRun
  cases s.started with
  | true => exact Or.inl rfl
  | false =>
    refine Or.inr ⟨rfl, ?_⟩
    cases s.stopped with
    | true => exact Or.inl ⟨_, rfl⟩
    | false =>
      rcases runtime with cause | _
      · exact Or.inl ⟨_, rfl⟩
      · exact Or.inr rfl

/-- Outside the tail the future was never dropped, and the tail is never left. -/
theorem step_inTail (hf : Fresh s) (h : step s a = some t) (ht : t.pc.inTail = false) :
    s.pc.inTail = false ∧ ∀ spawned, a ≠ .cancel spawned := by
  cases a with
  | run runtime =>
    cases h
    rcases callRun_cases s runtime with hrun | ⟨hstarted, -⟩
    · rw [hrun] at ht
      exact ⟨ht, by simp⟩
    · exact ⟨by rw [hf hstarted]; rfl, by simp⟩
  | stop => cases h; exact ⟨ht, by simp⟩
  | dropSenders => cases h; exact ⟨ht, by simp⟩
  | emit x => rcases (emit_spec h).2 with rfl | ⟨-, rfl⟩ <;> exact ⟨ht, by simp⟩
  | tunnelEnds o => obtain ⟨-, rfl⟩ := tunnelEnds_spec h; exact ⟨ht, by simp⟩
  | recv => exact ⟨by rw [(recv_spec h).1]; rfl, by simp⟩
  | recvClosed => obtain ⟨-, rfl⟩ := recvClosed_spec h; exact ⟨ht, by simp⟩
  | join => exact ⟨by rw [(join_spec h).1]; rfl, by simp⟩
  | complete => exact ⟨by rw [← (completed_continues h).inTail]; exact ht, by simp⟩
  | cancel spawned =>
    obtain ⟨rfl, -, -⟩ := cancelled_spec h
    cases spawned <;> simp [Pc.inTail] at ht
  | shutdown =>
    obtain ⟨-, rfl⟩ := shutdown_spec h
    obtain ⟨pc, q, hr, -, -, htail⟩ := resume_frame { s with tunnel := s.tunnel.reaped } .tail
    rw [hr] at ht
    exact absurd (htail.2 rfl) (by rw [ht]; simp)

end StepPlace

/-! ### The control invariant -/

/-- What holds at every await point, whatever was delivered. -/
structure Control (s : State) : Prop where
  fresh : Fresh s
  pcOk : PcOk s
  /-- Nothing is spawned before the first call. -/
  idle : s.pc = .idle → s.tunnel = .none
  /-- The tunnel task has an end to speak of only once it ended. -/
  unended : s.tunnel = .none ∨ s.tunnel = .running → s.beforeEnd = []
  ended : s.beforeEnd <+: s.enqueued
  /-- A receiver is dropped early only when the queue is empty for good. -/
  closed : s.receiver = false → ¬s.finished → s.queue = []
  joined : s.pc.afterJoin = true → s.tunnel ≠ .running

theorem Task.reaped_ne_running (t : Task) : t.reaped ≠ .running := by
  cases t <;> simp [Task.reaped]

theorem Task.reaped_eq_none {t : Task} (h : t.reaped = .none) : t = .none := by
  cases t <;> simp_all [Task.reaped]

section Control

variable {s t : State} {a : Action}

theorem control_init : Control init :=
  ⟨fun _ => rfl, trivial, fun _ => rfl, fun _ => rfl, List.prefix_rfl, by simp [init],
    by simp [init, Pc.afterJoin]⟩

/-- A loop that takes its next turn from an await point of a guarded or draining future. -/
theorem Control.resume (h : Control s) (site : Site) (hpc : s.pc ≠ .idle) (hs : ¬s.finished) :
    Control (resume { s with tunnel := s.tunnel.reaped } site) := by
  have hm := resume_movedOn { s with tunnel := s.tunnel.reaped } site
  obtain ⟨pc, q, hr, hidle, -, -⟩ := resume_frame { s with tunnel := s.tunnel.reaped } site
  rw [hr] at hm ⊢
  refine ⟨fun hstarted => absurd (h.fresh hstarted) hpc, hm.pcOk, fun hi => absurd hi hidle, ?_,
    h.ended, fun hclosed _ => ?_, fun _ => s.tunnel.reaped_ne_running⟩
  · rintro (ht | ht)
    · exact h.unended (Or.inl (Task.reaped_eq_none ht))
    · exact absurd ht s.tunnel.reaped_ne_running
  · have hp : pc.inHand ++ q = s.queue := hm.pending
    rw [h.closed hclosed hs] at hp
    exact (List.append_eq_nil_iff.1 hp).2

theorem Control.completed (h : Control s) (hc : completed s = some t) : Control t := by
  have hs : s.pc ≠ .idle ∧ ¬s.finished := by
    refine ⟨fun hi => ?_, ?_⟩
    · simp [Ffi.completed, hi] at hc
    · rintro (hi | hi) <;> simp [Ffi.completed, hi] at hc
  have hk := completed_continues hc
  refine ⟨fun hstarted => ?_, (completed_effect h.pcOk hc).2, fun hi => absurd hi hk.idle, ?_, ?_,
    fun hclosed hfin => ?_, fun hj => ?_⟩
  · rw [hk.started] at hstarted
    exact absurd (h.fresh hstarted) hs.1
  · rw [hk.tunnel, hk.beforeEnd]
    exact h.unended
  · rw [hk.beforeEnd, hk.enqueued]
    exact h.ended
  · have hsame := hk.receiver.resolve_right hfin
    exact hk.queue (h.closed (hsame ▸ hclosed) hs.2)
  · rw [hk.tunnel]
    exact h.joined (hk.afterJoin hj)

theorem Control.callRun (h : Control s) (runtime : Except String Unit) :
    Control (callRun s runtime) := by
  have hok := (callRun_effect h.fresh runtime).2 h.pcOk
  rcases callRun_cases s runtime with hrun | ⟨hstarted, ⟨e, hrun⟩ | hrun⟩
  · rw [hrun]
    exact h
  · have hidle := h.fresh hstarted
    rw [hrun] at hok ⊢
    refine ⟨by simp [Fresh], hok, by simp, h.unended, h.ended, fun hc _ => h.closed hc ?_, ?_⟩
    · simp [State.finished, hidle]
    · simp [h.idle hidle]
  · have hidle := h.fresh hstarted
    rw [hrun] at hok ⊢
    refine ⟨by simp [Fresh], hok, by simp, fun _ => h.unended (Or.inl (h.idle hidle)), h.ended,
      fun hc _ => h.closed hc ?_, by simp [Pc.afterJoin]⟩
    simp [State.finished, hidle]

theorem Control.step (h : Control s) (hstep : step s a = some t) : Control t := by
  have hok := h.pcOk.step h.fresh hstep
  cases a with
  | run runtime => cases hstep; exact h.callRun runtime
  | stop => cases hstep; exact ⟨h.fresh, hok, h.idle, h.unended, h.ended, h.closed, h.joined⟩
  | dropSenders =>
    cases hstep
    exact ⟨h.fresh, hok, h.idle, h.unended, h.ended, h.closed, h.joined⟩
  | emit x =>
    rcases (emit_spec hstep).2 with rfl | ⟨hr, rfl⟩
    · exact h
    · exact ⟨h.fresh, hok, h.idle, h.unended, h.ended.trans (List.prefix_append _ _),
        fun hc => absurd hc (by simp [hr]), h.joined⟩
  | tunnelEnds o =>
    obtain ⟨hrun, rfl⟩ := tunnelEnds_spec hstep
    exact ⟨h.fresh, hok, fun hi => absurd (h.idle hi) (by simp [hrun]), by simp, List.prefix_rfl,
      h.closed, by simp⟩
  | recv =>
    obtain ⟨hpc, item, rest, hq, rfl⟩ := recv_spec hstep
    obtain ⟨pc, hd, hcases⟩ := deliver_frame { s with queue := rest } .select item
    rw [hd] at hok ⊢
    refine ⟨fun hn => absurd (h.fresh hn) (by simp [hpc]), hok, ?_, h.unended, h.ended,
      fun hc _ => ?_, ?_⟩
    · rcases hcases with rfl | rfl <;> simp
    · have := h.closed hc (by simp [State.finished, hpc])
      simp [hq] at this
    · rcases hcases with rfl | rfl <;> simp [Pc.afterJoin]
  | recvClosed =>
    obtain ⟨hq, rfl⟩ := recvClosed_spec hstep
    exact ⟨h.fresh, hok, h.idle, h.unended, h.ended, fun _ _ => hq, h.joined⟩
  | join =>
    obtain ⟨hpc, o, -, rfl⟩ := join_spec hstep
    exact h.resume _ (by simp [hpc]) (by simp [State.finished, hpc])
  | complete => exact h.completed hstep
  | cancel spawned =>
    obtain ⟨rfl, hg, hs⟩ := cancelled_spec hstep
    have hidle : s.pc ≠ .idle := fun hi => by simp [hi, Pc.guarded] at hg
    refine ⟨fun hn => absurd (h.fresh hn) hidle, hok, ?_, h.unended, h.ended,
      fun hc _ => h.closed hc hs, ?_⟩ <;> cases spawned <;> simp [Pc.afterJoin]
  | shutdown =>
    obtain ⟨hpc, rfl⟩ := shutdown_spec hstep
    exact h.resume _ (by simp [hpc]) (by simp [State.finished, hpc])

theorem Control.completed_drained (hc : Control s) (hstep : Ffi.completed s = some t)
    (ht : t.pc.drained = true) :
    t.queue = [] ∨ s.pc.drained = true ∧ t.queue = s.queue ∧ t.enqueued = s.enqueued := by
  unfold Ffi.completed at hstep
  split at hstep <;> rename_i hpc
  · cases hstep
    cases ht
  · cases hstep
    refine Or.inl (resume_drained ht fun hr => hc.closed hr ?_)
    simp [State.finished, hpc]
  · cases hstep
    exact Or.inr ⟨by rw [hpc]; rfl, rfl, rfl⟩
  · cases hstep
    exact Or.inr ⟨by rw [hpc]; rfl, rfl, rfl⟩
  · cases hstep

/-- Behind a drain the queue grows only by what is enqueued later.  A `run()` that starts no tunnel
gets there without a drain. -/
theorem Control.step_drained (hc : Control s) (hstep : Ffi.step s a = some t)
    (ht : t.pc.drained = true) :
    t.queue = [] ∨ s.pc = .idle ∨ s.pc.drained = true ∧
      s.enqueued.length + t.queue.length ≤ t.enqueued.length + s.queue.length := by
  cases a with
  | run runtime =>
    cases hstep
    rcases callRun_cases s runtime with hrun | ⟨hstarted, -⟩
    · rw [hrun] at ht ⊢
      exact Or.inr (Or.inr ⟨ht, le_rfl⟩)
    · exact Or.inr (Or.inl (hc.fresh hstarted))
  | stop => cases hstep; exact Or.inr (Or.inr ⟨ht, le_rfl⟩)
  | dropSenders => cases hstep; exact Or.inr (Or.inr ⟨ht, le_rfl⟩)
  | emit x =>
    rcases (emit_spec hstep).2 with rfl | ⟨-, rfl⟩
    · exact Or.inr (Or.inr ⟨ht, le_rfl⟩)
    · refine Or.inr (Or.inr ⟨ht, ?_⟩)
      simp only [List.length_append, List.length_singleton]
      omega
  | tunnelEnds o => obtain ⟨-, rfl⟩ := tunnelEnds_spec hstep; exact Or.inr (Or.inr ⟨ht, le_rfl⟩)
  | recv =>
    obtain ⟨-, item, rest, -, rfl⟩ := recv_spec hstep
    rw [deliver_not_drained] at ht
    cases ht
  | recvClosed => obtain ⟨-, rfl⟩ := recvClosed_spec hstep; exact Or.inr (Or.inr ⟨ht, le_rfl⟩)
  | join =>
    obtain ⟨hpc, o, -, rfl⟩ := join_spec hstep
    exact Or.inl (resume_drained ht fun hr => hc.closed hr (by simp [State.finished, hpc]))
  | complete =>
    rcases hc.completed_drained hstep ht with hq | ⟨hs, hq, henq⟩
    · exact Or.inl hq
    · exact Or.inr (Or.inr ⟨hs, by rw [hq, henq]⟩)
  | cancel spawned =>
    obtain ⟨rfl, -, -⟩ := cancelled_spec hstep
    cases spawned <;> simp [Pc.drained] at ht
  | shutdown =>
    obtain ⟨hpc, rfl⟩ := shutdown_spec hstep
    exact Or.inl (resume_drained ht fun hr => hc.closed hr (by simp [State.finished, hpc]))

end Control

/-! ### The task the `select!` loop waits for -/

/-- A `run()` that was called is under way, and its `select!` loop has a task to wait for. -/
structure Placed (s : State) : Prop where
  underway : s.started = true → s.pc ≠ .idle
  select : s.pc.selecting = true → s.tunnel = .running ∨ ∃ o, s.tunnel = .ended o

section Placed

variable {s t : State} {a : Action}

theorem placed_init : Placed init :=
  ⟨by simp [init], fun h => (by cases h)⟩

/-- Away from the `select!` loop. -/
theorem Placed.leave (hidle : t.pc ≠ .idle) (hsel : t.pc.selecting = false) : Placed t :=
  ⟨fun _ => hidle, fun h => by rw [hsel] at h; cases h⟩

/-- The drains behind the join and in the tail. -/
theorem placed_resume (s : State) {site : Site} (hsite : site ≠ .select) :
    Placed (resume s site) := by
  cases site with
  | select => exact absurd rfl hsite
  | joined o =>
    obtain ⟨pc, q, h, hpc⟩ := drain_frame s (.joined o) (.ending o.event)
    rw [resume, h]
    rcases hpc with rfl | ⟨item, rfl | rfl⟩ <;> exact .leave (by simp) rfl
  | tail =>
    obtain ⟨pc, q, h, hpc⟩ := drain_frame s .tail .tailEnding
    rw [resume, h]
    rcases hpc with rfl | ⟨item, rfl | rfl⟩ <;> exact .leave (by simp) rfl

theorem Placed.completed (h : Placed s) (hstep : completed s = some t) : Placed t := by
  unfold Ffi.completed at hstep
  split at hstep <;> rename_i hpc <;> cases hstep
  · rename_i site item
    refine ⟨fun _ hp => (by cases hp), fun hsel => h.select ?_⟩
    rw [hpc]
    cases site <;> exact hsel
  · rename_i site item
    cases site with
    | select => exact ⟨fun _ hp => (by cases hp), fun _ => h.select (by rw [hpc]; rfl)⟩
    | joined o => exact placed_resume _ (fun hsite => by cases hsite)
    | tail => exact placed_resume _ (fun hsite => by cases hsite)
  · exact .leave (fun hp => by cases hp) rfl
  · exact .leave (fun hp => by cases hp) rfl

theorem Placed.step (h : Placed s) (hstep : step s a = some t) : Placed t := by
  cases a with
  | run runtime =>
    cases hstep
    rcases callRun_cases s runtime with hrun | ⟨-, ⟨e, hrun⟩ | hrun⟩ <;> rw [hrun]
    · exact h
    · exact .leave (fun hp => by cases hp) rfl
    · exact ⟨fun _ hp => (by cases hp), fun _ => .inl rfl⟩
  | stop | dropSenders =>
    cases hstep
    exact ⟨h.underway, h.select⟩
  | emit x =>
    rcases (emit_spec hstep).2 with rfl | ⟨-, rfl⟩
    · exact h
    · exact ⟨h.underway, h.select⟩
  | tunnelEnds o =>
    obtain ⟨-, rfl⟩ := tunnelEnds_spec hstep
    exact ⟨h.underway, fun _ => .inr ⟨o, rfl⟩⟩
  | recv =>
    obtain ⟨hpc, item, rest, -, rfl⟩ := recv_spec hstep
    obtain ⟨pc, hd, hcases⟩ := deliver_frame { s with queue := rest } .select item
    rw [hd]
    refine ⟨fun _ hp => ?_, fun _ => h.select (by rw [hpc]; rfl)⟩
    rcases hcases with rfl | rfl <;> cases hp
  | recvClosed =>
    obtain ⟨-, rfl⟩ := recvClosed_spec hstep
    exact ⟨h.underway, h.select⟩
  | join =>
    obtain ⟨-, o, -, rfl⟩ := join_spec hstep
    exact placed_resume _ (fun hsite => by cases hsite)
  | complete => exact h.completed hstep
  | cancel spawned =>
    obtain ⟨rfl, -, -⟩ := cancelled_spec hstep
    cases spawned <;> exact .leave (fun hp => by cases hp) rfl
  | shutdown =>
    obtain ⟨-, rfl⟩ := shutdown_spec hstep
    exact placed_resume _ (fun hsite => by cases hsite)

end Placed

/-! ### The discipline of the stream -/

/-- Everything the discipline needs, at once. -/
structure Discipline (s : State) : Prop extends Control s, Placed s where
  flow : ∃ k, Flow k s ∧ (s.pc.inTail = false → k = 0)
  announced : Announced s
  terminal : TerminalLast s
  /-- Behind the drain that follows the join, the queue holds only what came after the end of the
  tunnel task. -/
  delivered : s.pc.inTail = false → s.pc.drained = true →
    s.beforeEnd.length + s.queue.length ≤ s.enqueued.length

theorem discipline_init : Discipline init where
  toControl := control_init
  toPlaced := placed_init
  flow := ⟨0, ⟨[], List.Sublist.refl _, rfl, rfl⟩, fun _ => rfl⟩
  announced := ⟨by simp [init], by simp [init], by simp [init], by simp [init]⟩
  terminal := ⟨by simp [init], by simp [init, State.finished]⟩
  delivered := by simp [init, Pc.drained]

section Discipline

variable {s t : State} {a : Action}

/-- Only the end of the tunnel task sets what was accepted before it. -/
theorem step_beforeEnd (hstep : step s a = some t) :
    t.beforeEnd = s.beforeEnd ∨ s.tunnel = .running ∧ t.pc = s.pc := by
  cases a with
  | tunnelEnds o =>
    obtain ⟨hrun, rfl⟩ := tunnelEnds_spec hstep
    exact Or.inr ⟨hrun, rfl⟩
  | run runtime =>
    cases hstep
    rcases callRun_cases s runtime with hrun | ⟨-, ⟨e, hrun⟩ | hrun⟩ <;>
      exact Or.inl (by rw [hrun])
  | stop => cases hstep; exact Or.inl rfl
  | dropSenders => cases hstep; exact Or.inl rfl
  | emit x => rcases (emit_spec hstep).2 with rfl | ⟨-, rfl⟩ <;> exact Or.inl rfl
  | recv =>
    obtain ⟨-, item, rest, -, rfl⟩ := recv_spec hstep
    obtain ⟨pc, hd, -⟩ := deliver_frame { s with queue := rest } .select item
    exact Or.inl (by rw [hd])
  | recvClosed => obtain ⟨-, rfl⟩ := recvClosed_spec hstep; exact Or.inl rfl
  | join =>
    obtain ⟨-, o, -, rfl⟩ := join_spec hstep
    obtain ⟨pc, q, hr, -⟩ := resume_frame { s with tunnel := s.tunnel.reaped } (.joined o)
    exact Or.inl (by rw [hr])
  | complete => exact Or.inl (completed_continues hstep).beforeEnd
  | cancel spawned => obtain ⟨rfl, -, -⟩ := cancelled_spec hstep; exact Or.inl rfl
  | shutdown =>
    obtain ⟨-, rfl⟩ := shutdown_spec hstep
    obtain ⟨pc, q, hr, -⟩ := resume_frame { s with tunnel := s.tunnel.reaped } .tail
    exact Or.inl (by rw [hr])

theorem Discipline.step_delivered {k : ℕ} (h : Discipline s) (hstep : step s a = some t)
    (hctl : Control t) (hflow : Flow k t) (hin : t.pc.inTail = false)
    (ht : t.pc.drained = true) : t.beforeEnd.length + t.queue.length ≤ t.enqueued.length := by
  rcases h.toControl.step_drained hstep ht with hempty | hidle | ⟨hs, hle⟩
  · rw [hempty]
    exact hctl.ended.length_le
  · -- no tunnel was started, so none has ended
    have hnone := h.idle hidle
    have hend : t.beforeEnd = [] := by
      rcases step_beforeEnd hstep with hsame | ⟨hrun, -⟩
      · rw [hsame, h.unended (Or.inl hnone)]
      · rw [hnone] at hrun
        cases hrun
    have hlength := hflow.length
    rw [State.pending, List.length_append] at hlength
    rw [hend, List.length_nil]
    omega
  · have hout := (step_inTail h.fresh hstep hin).1
    rcases step_beforeEnd hstep with hsame | ⟨hrun, -⟩
    · have hdelivered := h.delivered hout hs
      rw [hsame]
      omega
    · exact absurd hrun (h.joined (Pc.afterJoin_of_drained hs hout))

theorem Discipline.step (h : Discipline s) (hstep : step s a = some t) : Discipline t := by
  obtain ⟨k, hflow, hk⟩ := h.flow
  have hctl := h.toControl.step hstep
  have hplaced := h.toPlaced.step hstep
  by_cases hmid : (∃ spawned, a = .cancel spawned) ∧ s.MidDelivery
  · obtain ⟨⟨spawned, rfl⟩, hmid⟩ := hmid
    obtain ⟨-, -, hlog, hann, henq⟩ := cancelled_midDelivery hmid hstep
    have hlost := hflow.lost hmid hstep
    refine ⟨hctl, hplaced, ⟨k + 1, hlost, fun ht => ?_⟩,
      h.announced.of_eq hlog hann (by rw [henq]; exact List.Subset.refl _),
      h.terminal.of_log_eq hlog (Or.inr ⟨(cancelled_spec hstep).2.2, (cancelled_pc hstep).2.2.1⟩),
      h.step_delivered hstep hctl hlost⟩
    exact absurd rfl ((step_inTail h.fresh hstep ht).2 spawned)
  · have heff := step_effect h.fresh h.pcOk hstep (fun spawned ha hm => hmid ⟨⟨spawned, ha⟩, hm⟩)
    have hflow' := hflow.effect heff
    exact ⟨hctl, hplaced, ⟨k, hflow', fun ht => hk (step_inTail h.fresh hstep ht).1⟩,
      h.announced.effect hflow heff, h.terminal.effect heff, h.step_delivered hstep hctl hflow'⟩

/-- A `run()` that has returned delivered a first part of what the channel took, and everything it
took before the tunnel task ended. -/
theorem Discipline.of_returned (h : Discipline s) (hpc : s.pc = .returned) :
    ∃ xs, items s.log = xs.map Inner.toEvent ∧ s.beforeEnd <+: xs ∧ xs <+: s.enqueued := by
  obtain ⟨k, hflow, hk⟩ := h.flow
  rw [hk (by rw [hpc]; rfl)] at hflow
  obtain ⟨xs, ys, henq, hxs, hys⟩ := List.map_eq_append_iff.1 hflow.all.symm
  have hprefix : xs <+: s.enqueued := ⟨ys, henq.symm⟩
  have hdelivered := h.delivered (by rw [hpc]; rfl) (by rw [hpc]; rfl)
  have hpending : s.pending = s.queue := by rw [State.pending, hpc]; rfl
  have hlength : ys.length = s.queue.length := by simpa [hpending] using congrArg List.length hys
  refine ⟨xs, hxs.symm, List.prefix_of_prefix_length_le h.ended hprefix ?_, hprefix⟩
  rw [henq, List.length_append] at hdelivered
  omega

end Discipline

/-! ### The way to the end -/

/-- The steps that lead to the end once the tunnel task is done: `run()` joins it, the tail's
`tunnel.shutdown()` returns, an `on_event` call returns. -/
def Action.closes : Action → Bool
  | .join | .shutdown | .complete => true
  | _ => false

/-- The stream comes to its end by such steps alone. -/
def State.Ends (s : State) : Prop :=
  ∃ closing t, (∀ a ∈ closing, a.closes = true) ∧ runs step s closing = some t ∧ t.finished

section Ends

variable {s t : State} {a : Action} {site : Site} {item : Inner}

theorem State.Ends.of_step (ht : t.Ends) (ha : a.closes = true) (hstep : step s a = some t) :
    s.Ends := by
  obtain ⟨closing, u, hcloses, hruns, hfin⟩ := ht
  refine ⟨a :: closing, u, ?_, by simp [runs, hstep, hruns], hfin⟩
  intro b hb
  rcases List.mem_cons.1 hb with rfl | hb
  · exact ha
  · exact hcloses b hb

theorem ends_of_finished (h : s.finished) : s.Ends :=
  ⟨[], s, by simp, rfl, h⟩

theorem ends_of_delivering (hpc : s.pc = .delivering site item)
    (h : (resume { s with log := s.log ++ [item.toEvent] } site).Ends) : s.Ends :=
  h.of_step (a := .complete) rfl (by simp [step, completed, hpc])

theorem ends_of_starting (hpc : s.pc = .starting site item)
    (h : (resume { s with log := s.log ++ [.started] ++ [item.toEvent], announced := true }
      site).Ends) : s.Ends := by
  have hstep : step s .complete = some
      { s with log := s.log ++ [.started], announced := true, pc := .delivering site item } := by
    simp [step, completed, hpc]
  have hdelivering : State.Ends
      { s with log := s.log ++ [.started], announced := true, pc := .delivering site item } :=
    ends_of_delivering rfl (by cases site <;> exact h)
  exact hdelivering.of_step rfl hstep

/-- While an `on_event` call is under way for an item, the end is that of the loop it returns to. -/
theorem ends_of_calling (hpc : s.pc = .starting site item ∨ s.pc = .delivering site item)
    (h : ∀ u : State, u.tunnel = s.tunnel → (resume u site).Ends) : s.Ends := by
  rcases hpc with hpc | hpc
  · exact ends_of_starting hpc (h _ rfl)
  · exact ends_of_delivering hpc (h _ rfl)

theorem ends_of_last (hpc : (∃ e, s.pc = .ending e) ∨ s.pc = .tailEnding) : s.Ends := by
  rcases hpc with ⟨e, hpc⟩ | hpc
  · exact (ends_of_finished (Or.inl rfl)).of_step (a := .complete) rfl
      (by simp only [step, completed, hpc]; rfl)
  · exact (ends_of_finished (Or.inr rfl)).of_step (a := .complete) rfl
      (by simp only [step, completed, hpc]; rfl)

/-- The next turn of a drain: its last event, or an item. -/
theorem resume_turn (s : State) (hsite : site ≠ .select) :
    ((∃ e, (resume s site).pc = .ending e) ∨ (resume s site).pc = .tailEnding) ∨
      ∃ item rest, s.queue = item :: rest ∧
        resume s site = deliver { s with queue := rest } site item := by
  cases site with
  | select => exact absurd rfl hsite
  | joined o =>
    rcases drain_cases s (.joined o) (.ending o.event) with ⟨h, -⟩ | h
    · exact Or.inl (Or.inl ⟨o.event, by rw [resume, h]⟩)
    · exact Or.inr h
  | tail =>
    rcases drain_cases s .tail .tailEnding with ⟨h, -⟩ | h
    · exact Or.inl (Or.inr (by rw [resume, h]))
    · exact Or.inr h

/-- A drain comes to its end, by induction on what the queue holds. -/
theorem ends_resume (s : State) (site : Site) (hsite : site ≠ .select) : (resume s site).Ends := by
  induction hq : s.queue generalizing s with
  | nil =>
    rcases resume_turn s hsite with hlast | ⟨item, rest, hcons, -⟩
    · exact ends_of_last hlast
    · rw [hq] at hcons
      cases hcons
  | cons item rest ih =>
    rcases resume_turn s hsite with hlast | ⟨item, rest, hcons, h⟩
    · exact ends_of_last hlast
    · rw [hq] at hcons
      cases hcons
      rw [h]
      rcases deliver_cases { s with queue := rest } site item with ⟨-, -, hd⟩ | ⟨-, hd⟩ <;> rw [hd]
      · exact ends_of_starting rfl (ih _ rfl)
      · exact ends_of_delivering rfl (ih _ rfl)

theorem ends_of_select {o : Outcome} (hpc : s.pc = .select) (hended : s.tunnel = .ended o) :
    s.Ends :=
  (ends_resume { s with tunnel := s.tunnel.reaped } (.joined o) (by simp)).of_step
    (a := .join) rfl (by simp [step, hpc, hended])

/-- A loop comes to its end: a drain in any case, the `select!` once the tunnel task has ended. -/
theorem ends_resume_joinable (s : State) (site : Site)
    (h : site = .select → ∃ o, s.tunnel = .ended o) : (resume s site).Ends := by
  by_cases hsite : site = .select
  · obtain ⟨o, ho⟩ := h hsite
    rw [hsite]
    exact ends_of_select rfl ho
  · exact ends_resume s site hsite

/-- The tail comes to its end. -/
theorem ends_of_tail (hin : s.pc.inTail = true) (hne : s.pc ≠ .abandoned) : s.Ends := by
  cases hpc : s.pc with
  | idle | select | ending | returned => simp [hpc, Pc.inTail] at hin
  | starting site item | delivering site item =>
    refine ends_of_calling (by first | exact Or.inl hpc | exact Or.inr hpc) fun u _ =>
      ends_resume u site fun hsite => ?_
    rw [hpc, hsite] at hin
    cases hin
  | shutdown =>
    exact (ends_resume { s with tunnel := s.tunnel.reaped } .tail (by simp)).of_step
      (a := .shutdown) rfl (by simp [step, hpc])
  | tailEnding => exact ends_of_last (Or.inr hpc)
  | tailDone => exact ends_of_finished (Or.inr hpc)
  | abandoned => exact absurd hpc hne

/-- A `run()` that was not dropped comes to its end once the tunnel task has ended. -/
theorem ends_of_run (h : Placed s) (hstarted : s.started = true) (hin : s.pc.inTail = false)
    (hended : s.tunnel ≠ .running) : s.Ends := by
  have htask : s.pc.selecting = true → ∃ o, s.tunnel = .ended o := fun hsel =>
    (h.select hsel).resolve_left hended
  cases hpc : s.pc with
  | idle => exact absurd hpc (h.underway hstarted)
  | select =>
    obtain ⟨o, ho⟩ := htask (by rw [hpc]; rfl)
    exact ends_of_select hpc ho
  | starting site item | delivering site item =>
    -- at the `select!` the join is still to come, and the task is there to be joined
    refine ends_of_calling (by first | exact Or.inl hpc | exact Or.inr hpc) fun u hu =>
      ends_resume_joinable u site fun hsite => ?_
    rw [hu]
    exact htask (by rw [hpc, hsite]; rfl)
  | ending e => exact ends_of_last (Or.inl ⟨e, hpc⟩)
  | returned => exact ends_of_finished (Or.inl hpc)
  | shutdown | tailEnding | tailDone | abandoned => simp [hpc, Pc.inTail] at hin

theorem resume_not_abandoned (s : State) (site : Site) : (resume s site).pc ≠ .abandoned := by
  by_cases hsite : site = .select
  · subst hsite
    simp [resume]
  · rcases resume_turn s hsite with (⟨e, h⟩ | h) | ⟨item, rest, -, h⟩
    · simp [h]
    · simp [h]
    · obtain ⟨pc, hd, rfl | rfl⟩ := deliver_frame { s with queue := rest } site item <;>
        simp [h, hd]

/-- Only a dropped future is left without a tail. -/
theorem step_abandoned (hstep : step s a = some t) (ht : t.pc = .abandoned) :
    s.pc = .abandoned ∨ a = .cancel false := by
  cases a with
  | run runtime =>
    cases hstep
    rcases callRun_cases s runtime with hrun | ⟨-, ⟨e, hrun⟩ | hrun⟩ <;> rw [hrun] at ht
    · exact Or.inl ht
    · cases ht
    · cases ht
  | stop => cases hstep; exact Or.inl ht
  | dropSenders => cases hstep; exact Or.inl ht
  | emit x => rcases (emit_spec hstep).2 with rfl | ⟨-, rfl⟩ <;> exact Or.inl ht
  | tunnelEnds o => obtain ⟨-, rfl⟩ := tunnelEnds_spec hstep; exact Or.inl ht
  | recv =>
    obtain ⟨-, item, rest, -, rfl⟩ := recv_spec hstep
    obtain ⟨pc, hd, rfl | rfl⟩ := deliver_frame { s with queue := rest } .select item <;>
      simp [hd] at ht
  | recvClosed => obtain ⟨-, rfl⟩ := recvClosed_spec hstep; exact Or.inl ht
  | join =>
    obtain ⟨-, o, -, rfl⟩ := join_spec hstep
    exact absurd ht (resume_not_abandoned _ _)
  | complete =>
    replace hstep : completed s = some t := hstep
    unfold completed at hstep
    split at hstep <;> cases hstep
    · cases ht
    · exact absurd ht (resume_not_abandoned _ _)
    · cases ht
    · cases ht
  | cancel spawned =>
    obtain ⟨rfl, -, -⟩ := cancelled_spec hstep
    cases spawned with
    | false => exact Or.inr rfl
    | true => cases ht
  | shutdown =>
    obtain ⟨-, rfl⟩ := shutdown_spec hstep
    exact absurd ht (resume_not_abandoned _ _)

theorem Pc.guarded_not_inTail {pc : Pc} (h : pc.guarded = true) : pc.inTail = false := by
  cases pc <;> simp_all [Pc.guarded, Pc.inTail]

/-- A tail that was spawned stays one. -/
theorem step_tail (hf : Fresh s) (hin : s.pc.inTail = true) (hne : s.pc ≠ .abandoned)
    (hstep : step s a = some t) : t.pc.inTail = true ∧ t.pc ≠ .abandoned := by
  constructor
  · by_contra hn
    have := (step_inTail hf hstep (Bool.eq_false_iff.2 hn)).1
    simp [hin] at this
  · intro ht
    rcases step_abandoned hstep ht with hs | rfl
    · exact hne hs
    · have := Pc.guarded_not_inTail (cancelled_spec hstep).2.1
      simp [hin] at this

/-- A future that is dropped where a tail can be spawned gets one, and the tail comes to its end
whatever happens meanwhile. -/
theorem Discipline.ends_of_cancel {c : State} {rest : List Action} (h : Discipline s)
    (hc : Ffi.step s (.cancel true) = some c) (ht : runs Ffi.step c rest = some t) :
    t.Ends := by
  have hpc : c.pc = .shutdown := by rw [(cancelled_spec hc).1]; rfl
  have htail := runs_invariant
    (P := fun u => Discipline u ∧ u.pc.inTail = true ∧ u.pc ≠ .abandoned)
    (fun _ _ _ hu hstep => ⟨hu.1.step hstep, step_tail hu.1.fresh hu.2.1 hu.2.2 hstep⟩) ht
    ⟨h.step hc, by rw [hpc]; rfl, by simp [hpc]⟩
  exact ends_of_tail htail.2.1 htail.2.2

end Ends

/-- **The discipline of the stream.**  In every state any schedule leads to: (a) once `run()` or
the tail has finished, exactly one terminal event was delivered, the last; (b) `Started` was
delivered at most once, and before every `ConnectionEstablished`; (c) the rest is a subsequence of
what was enqueued, and if `run()` returned it has no gap and covers all that was enqueued before
the tunnel task ended.  A second `run()` does nothing.  And the end is reached: by a `run()` that is
not dropped once the tunnel task has ended, and, where `spawn_detached` succeeds, by the tail of one
that is. -/
theorem stream_discipline (schedule : List Action) (s : State)
    (h : runs step init schedule = some s) :
    (s.finished → ∃ body e, s.log = body ++ [e] ∧ e.isTerminal = true ∧
      ∀ x ∈ body, x.isTerminal = false) ∧
    (s.log.count .started ≤ 1 ∧
      ∀ l e r, s.log = l ++ e :: r → e.isEstablished = true → .started ∈ l) ∧
    (items s.log).Sublist (s.enqueued.map Inner.toEvent) ∧
    (s.pc = .returned → s.beforeEnd.map Inner.toEvent <+: items s.log ∧
      items s.log <+: s.enqueued.map Inner.toEvent) ∧
    (s.started = true → ∀ runtime, step s (.run runtime) = some s) ∧
    (s.started = true → s.pc.inTail = false → s.tunnel ≠ .running → s.Ends) ∧
    ∀ c rest t, step s (.cancel true) = some c → runs step c rest = some t → t.Ends := by
  have hd : Discipline s := runs_invariant (fun _ _ _ h hstep => h.step hstep) h discipline_init
  obtain ⟨k, hflow, hk⟩ := hd.flow
  refine ⟨fun hfin => ?_, ⟨hd.announced.once, hd.announced.first⟩, ?_, fun hret => ?_, ?_,
    ends_of_run hd.toPlaced, fun c rest t hc ht => hd.ends_of_cancel hc ht⟩
  · obtain ⟨body, e, hlog, he, -, hbody⟩ := hd.terminal.last hfin
    exact ⟨body, e, hlog, he, hbody⟩
  · obtain ⟨kept, hsub, -, heq⟩ := hflow
    refine List.Sublist.trans ?_ (hsub.map _)
    rw [← heq]
    exact List.sublist_append_left _ _
  · obtain ⟨xs, hitems, hend, henq⟩ := hd.of_returned hret
    rw [hitems]
    exact ⟨hend.map _, henq.map _⟩
  · intro hstarted runtime
    simp [step, callRun, hstarted]

/-- One connection, with a certificate queued before it and `run()` left to its end; the second
certificate is enqueued after the last poll of the queue, and left to the drain. -/
def oneConnection : List Action :=
  [.run (.ok ()), .emit (.cert "PEM"), .emit (.conn (.established "SEC" "127.0.0.1:4433" .quic)),
    .recv, .complete, .recv, .complete, .complete, .stop, .emit (.cert "PEM2"), .tunnelEnds .ok,
    .join, .complete, .complete]

/-- Run to its end, the one connection is announced, delivered and closed. -/
theorem stream_discipline_oneConnection : ∃ s, runs step init oneConnection = some s ∧
    s.log = [.certIssued "PEM", .started, .connectionEstablished "SEC" "127.0.0.1:4433" "quic",
      .certIssued "PEM2", .stopped] ∧
    s.finished ∧ s.beforeEnd.map Inner.toEvent <+: items s.log :=
  have h := stream_discipline oneConnection _ rfl
  ⟨_, rfl, by decide, Or.inl rfl, (h.2.2.2.1 rfl).1⟩

end QuicTunnel.Ffi
