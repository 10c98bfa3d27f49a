import QuicTunnel.Ffi.Discipline

/-!
# How the stream is closed

Which terminal event a stream is going to deliver is decided at one point: when `run()` finds the
client stopped or has no runtime, or when it joins the tunnel task.  `Pc.closing` is the event that
was decided, and `Course` says what each step of a `run()` that is not cancelled does to it.
-/

namespace QuicTunnel.Ffi

/-- The actions of the foreign side, of `run()` and of the tail. -/
def Action.foreign : Action → Bool
  | .emit _ | .dropSenders | .tunnelEnds _ => false
  | _ => true

/-- The terminal event the code behind an await point is going to deliver. -/
def Pc.closing : Pc → Option TunnelEvent
  | .starting (.joined o) _ | .delivering (.joined o) _ => some o.event
  | .ending e => some e
  | _ => none

theorem Pc.afterJoin_of_closing {pc : Pc} {e : TunnelEvent} (h : pc.closing = some e) :
    pc.afterJoin = true := by
  unfold Pc.closing at h
  split at h <;> first | rfl | cases h

/-- What a step does to the end of the stream. -/
inductive Course (s : State) (a : Action) (t : State) : Prop
  /-- Nothing is decided. -/
  | same (tunnel : t.tunnel = s.tunnel) (receiver : t.receiver = s.receiver)
      (stopped : t.stopped = s.stopped ∨ a = .stop ∧ t.stopped = true)
      (closing : t.pc.closing = s.pc.closing) (returned : t.pc = .returned ↔ s.pc = .returned)
      (log : s.pc = .returned → t.log = s.log)
  /-- `run()` does not start a tunnel. -/
  | refused (e : TunnelEvent) (tunnel : s.tunnel = .none ∧ t.tunnel = .none)
      (receiver : t.receiver = s.receiver) (stopped : t.stopped = s.stopped)
      (before : s.pc ≠ .returned) (pc : t.pc = .ending e)
      (why : e = .stopped ∧ s.stopped = true ∨ ∃ cause, e = .failed cause ∧ a = .run (.error cause))
  /-- `run()` starts the tunnel. -/
  | starts (tunnel : s.tunnel = .none ∧ t.tunnel = .running) (receiver : t.receiver = s.receiver)
      (stopped : t.stopped = s.stopped) (before : s.pc ≠ .returned) (pc : t.pc = .select)
  /-- `run()` joins the tunnel task. -/
  | joins (o : Outcome) (tunnel : s.tunnel = .ended o ∧ t.tunnel = .joined)
      (receiver : t.receiver = s.receiver) (stopped : t.stopped = s.stopped)
      (before : s.pc ≠ .returned) (closing : t.pc.closing = some o.event) (pc : t.pc ≠ .returned)
  /-- The terminal event is delivered. -/
  | ends (e : TunnelEvent) (tunnel : t.tunnel = s.tunnel) (stopped : t.stopped = s.stopped)
      (before : s.pc.closing = some e) (pc : t.pc = .returned) (log : t.log = s.log ++ [e])

/-- What the channel has accepted, now and before the tunnel task ended, and its senders. -/
structure Accepted (s t : State) : Prop where
  enqueued : t.enqueued = s.enqueued
  beforeEnd : t.beforeEnd = s.beforeEnd
  senders : t.senders = s.senders

section Steps

variable {s t : State} {a : Action}

theorem deliver_closing (s : State) (site : Site) (item : Inner) :
    (deliver s site item).pc.closing = (Pc.delivering site item).closing ∧
      (deliver s site item).pc ≠ .returned := by
  obtain ⟨pc, h, rfl | rfl⟩ := deliver_frame s site item <;> rw [h] <;> cases site <;>
    exact ⟨rfl, nofun⟩

/-- The drain behind the join keeps the event of the outcome. -/
theorem resume_joined (s : State) (o : Outcome) :
    (resume s (.joined o)).pc.closing = some o.event ∧
      (resume s (.joined o)).pc ≠ .returned := by
  rw [resume]
  rcases drain_cases s (.joined o) (.ending o.event) with ⟨h, -⟩ | ⟨item, rest, -, h⟩
  · rw [h]
    refine ⟨rfl, fun hpc => ?_⟩
    cases hpc
  · rw [h]
    exact deliver_closing ..

theorem accepted_of_eq {pc : Pc} {q : List Inner} (h : t = { s with pc := pc, queue := q }) :
    Accepted s t := by
  rw [h]
  exact ⟨rfl, rfl, rfl⟩

theorem completed_course (hstep : completed s = some t) (ht : t.pc.inTail = false) :
    Course s .complete t := by
  unfold completed at hstep
  split at hstep <;> cases hstep <;> rename_i hpc
  · rename_i site item
    refine .same rfl rfl (.inl rfl) ?_ (by simp [hpc]) (by simp [hpc])
    rw [hpc]
    cases site <;> rfl
  · rename_i site item
    obtain ⟨pc, q, hr, -, -, htail⟩ :=
      resume_frame { s with log := s.log ++ [item.toEvent] } site
    have hframe := congrArg (fun u : State => (u.tunnel, u.receiver, u.stopped)) hr
    simp only [Prod.mk.injEq] at hframe
    obtain ⟨htunnel, hreceiver, hstopped⟩ := hframe
    refine .same htunnel hreceiver (.inl hstopped) ?_ ?_ (by simp [hpc])
    · rw [hpc]
      cases site with
      | select => rfl
      | joined o => exact (resume_joined ..).1
      | tail =>
        rw [hr] at ht
        rw [htail.2 rfl] at ht
        cases ht
    · rw [hpc]
      refine ⟨fun h => ?_, nofun⟩
      cases site with
      | select => cases h
      | joined o => exact absurd h (resume_joined ..).2
      | tail =>
        rw [hr] at ht
        rw [htail.2 rfl] at ht
        cases ht
  · rename_i e
    exact .ends e rfl rfl (by rw [hpc]; rfl) rfl rfl
  · cases ht

/-- **The course of a stream** whose future is not dropped, while a sender is left. -/
theorem foreign_course (hc : Control s) (hsenders : s.senders = true) (hforeign : a.foreign = true)
    (hstep : step s a = some t) (ht : t.pc.inTail = false) : Course s a t := by
  cases a with
  | run runtime =>
    cases hstep
    cases hstarted : s.started with
    | true =>
      have h : callRun s runtime = s := by simp [callRun, hstarted]
      rw [h]
      exact .same rfl rfl (.inl rfl) rfl .rfl fun _ => rfl
    | false =>
      have hnone := hc.idle (hc.fresh hstarted)
      have hne : s.pc ≠ .returned := by
        rw [hc.fresh hstarted]
        intro hpc
        cases hpc
      cases hstopped : s.stopped with
      | true =>
        simp only [callRun, hstarted, Bool.false_eq_true, if_false, hstopped, if_true]
        exact .refused .stopped ⟨hnone, hnone⟩ rfl hstopped.symm hne rfl
          (.inl ⟨rfl, hstopped⟩)
      | false =>
        cases runtime with
        | error cause =>
          simp only [callRun, hstarted, Bool.false_eq_true, if_false, hstopped]
          exact .refused (.failed cause) ⟨hnone, hnone⟩ rfl hstopped.symm hne rfl
            (.inr ⟨cause, rfl, rfl⟩)
        | ok _ =>
          simp only [callRun, hstarted, Bool.false_eq_true, if_false, hstopped]
          exact .starts ⟨hnone, rfl⟩ rfl hstopped.symm hne rfl
  | stop =>
    cases hstep
    exact .same rfl rfl (.inr ⟨rfl, rfl⟩) rfl .rfl fun _ => rfl
  | emit | dropSenders | tunnelEnds => cases hforeign
  | recv =>
    obtain ⟨hpc, item, rest, -, rfl⟩ := recv_spec hstep
    obtain ⟨pc, hd, -⟩ := deliver_frame { s with queue := rest } .select item
    obtain ⟨hclosing, hne⟩ := deliver_closing { s with queue := rest } .select item
    refine .same (by rw [hd]) (by rw [hd]) (.inl (by rw [hd])) ?_ ?_ (by simp [hpc])
    · rw [hclosing, hpc]
      rfl
    · exact ⟨fun h => absurd h hne, fun h => by simp [hpc] at h⟩
  | recvClosed =>
    simp only [step] at hstep
    split at hstep
    · rw [hsenders, if_pos rfl] at hstep
      cases hstep
    · cases hstep
  | join =>
    obtain ⟨hpc, o, htunnel, rfl⟩ := join_spec hstep
    obtain ⟨pc, q, hr, -⟩ := resume_frame { s with tunnel := s.tunnel.reaped } (.joined o)
    obtain ⟨hclosing, hne⟩ := resume_joined { s with tunnel := s.tunnel.reaped } o
    exact .joins o ⟨htunnel, by rw [hr, htunnel]; rfl⟩ (by rw [hr]) (by rw [hr]) (by simp [hpc])
      hclosing hne
  | complete => exact completed_course hstep ht
  | cancel spawned => exact absurd rfl ((step_inTail hc.fresh hstep ht).2 spawned)
  | shutdown =>
    obtain ⟨hpc, -⟩ := shutdown_spec hstep
    have := (step_inTail hc.fresh hstep ht).1
    rw [hpc] at this
    cases this

theorem completed_accepted (hstep : completed s = some t) : Accepted s t := by
  unfold completed at hstep
  split at hstep <;> cases hstep
  · exact ⟨rfl, rfl, rfl⟩
  · rename_i site item _
    obtain ⟨pc, q, hr, -⟩ := resume_frame { s with log := s.log ++ [item.toEvent] } site
    rw [hr]
    exact ⟨rfl, rfl, rfl⟩
  · exact ⟨rfl, rfl, rfl⟩
  · exact ⟨rfl, rfl, rfl⟩

/-- The foreign side and `run()` put nothing into the channel. -/
theorem foreign_accepted (hforeign : a.foreign = true) (hstep : step s a = some t) :
    Accepted s t := by
  cases a with
  | run runtime =>
    cases hstep
    rcases callRun_cases s runtime with h | ⟨-, ⟨e, h⟩ | h⟩ <;> rw [h] <;> exact ⟨rfl, rfl, rfl⟩
  | stop => cases hstep; exact ⟨rfl, rfl, rfl⟩
  | emit | dropSenders | tunnelEnds => cases hforeign
  | recv =>
    obtain ⟨-, item, rest, -, rfl⟩ := recv_spec hstep
    obtain ⟨pc, hd, -⟩ := deliver_frame { s with queue := rest } .select item
    exact accepted_of_eq hd
  | recvClosed => obtain ⟨-, rfl⟩ := recvClosed_spec hstep; exact ⟨rfl, rfl, rfl⟩
  | join =>
    obtain ⟨-, o, -, rfl⟩ := join_spec hstep
    obtain ⟨pc, q, hr, -⟩ := resume_frame { s with tunnel := s.tunnel.reaped } (.joined o)
    rw [hr]
    exact ⟨rfl, rfl, rfl⟩
  | complete => exact completed_accepted hstep
  | cancel spawned => obtain ⟨rfl, -, -⟩ := cancelled_spec hstep; exact ⟨rfl, rfl, rfl⟩
  | shutdown =>
    obtain ⟨-, rfl⟩ := shutdown_spec hstep
    obtain ⟨pc, q, hr, -⟩ := resume_frame { s with tunnel := s.tunnel.reaped } .tail
    rw [hr]
    exact ⟨rfl, rfl, rfl⟩

end Steps

end QuicTunnel.Ffi
